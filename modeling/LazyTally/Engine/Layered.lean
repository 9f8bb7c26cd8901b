import LazyTally.Engine.Resolution
import LazyTally.Options

/-!
# The layered engine

An engine that keeps its layers in memory.  Writes go to the memtable as raw
records.  A flush turns the memtable into a run, and a compaction turns all runs
into one at the bottom.  Operands are resolved on reads, by a flush that finds
what lies under them, by a compaction, and when a chain in the memtable grows
beyond the limit.

## Main definitions

* `Layered` — an open engine.
* `Layered.ofStore`, `Layered.close` — opening a store and closing an engine.
* `Layered.write`, `Layered.flush`, `Layered.compact` — the calls that change the
  layers.
* `Layered.find?`, `Layered.entries` — the calls that read them.
* `Layered.engine` — all calls together.
-/

namespace LazyTally

open Engine (Event)

/-- An open engine. -/
structure Layered extends Layers where
  /-- The operator that resolves operands. -/
  operator : Option Operator
  /-- The identity that the store is marked with. -/
  identity : Option String
  /-- How many operands of a key the memtable may hold; zero is no limit. -/
  limit : UInt64

namespace Layered

/-! ### Opening and closing -/

/-- Data written under one operator must not be resolved by another, so a store
that is marked accepts only the operator that it is marked with. -/
def checkOperator (stored configured : Option String) : Attempt Event Unit :=
  if stored = none ∨ stored = configured then pure ()
  else do
    report (.operatorMismatch stored configured)
    throw (.operatorMismatch stored configured)

/-- Opens a store.  A store without a mark gets that of the configured operator. -/
def ofStore (store : Store) (options : Options) : Attempt Event Layered := do
  checkOperator store.operator options.operatorName?
  pure {
    memtable := []
    runs := store.runs
    operator := options.operator.map OperatorKind.operator
    identity := store.operator.or options.operatorName?
    limit := options.maxSuccessiveMerges }

/-- Closes the engine.  A memtable that holds something stays as it is, as the
newest run. -/
def close (engine : Layered) : Store where
  runs := if engine.memtable.isEmpty then engine.runs else engine.runs ++ [engine.memtable]
  operator := engine.identity

/-! ### Writing -/

/-- Resolves the chain of a key in the memtable if it is longer than the limit. -/
def enforceLimit (key : Bytes) : Call Event Layered Unit := do
  let engine ← get
  let chain := Chain.ofRecords (engine.memtable.records key)
  match engine.operator with
  | none => pure ()
  | some operator =>
      if engine.limit = 0 ∨ chain.operands.length ≤ engine.limit.toNat then pure ()
      else
        report (.chainLimitReached key chain.operands.length)
        match ← Resolution.shorten operator key chain with
        | none => pure ()
        | some record =>
            report (.chainResolved key)
            set { engine with memtable := KeyMap.insert engine.memtable key [record] }

/-- Applies the writes of a batch in order, and then enforces the limit on every
key that got operands. -/
def write (batch : Batch) : Call Event Layered Unit := do
  modify fun engine => { engine with memtable := batch.foldl Layer.push engine.memtable }
  batch.mergedKeys.forM enforceLimit

/-! ### Reorganising -/

/-- The records that remain of the chain of each key. -/
def condenseAll (operator : Option Operator) (bottommost : Bool) (chains : KeyMap Chain) :
    Attempt Event Layer :=
  chains.mapM fun (key, chain) => do
    return (key, ← Resolution.condense operator key chain bottommost)

/-- Turns the memtable into the newest run, unless it holds nothing. -/
def flush : Call Event Layered Unit := do
  let engine ← get
  if engine.memtable.isEmpty then pure ()
  else
    set { engine with memtable := [] }
    let run ← condenseAll engine.operator false engine.memtable.chains
    report (.flushed run.length engine.runs.length)
    set { engine with memtable := [], runs := engine.runs ++ [run] }

/-- The records of a bottom run as runs: a run that holds nothing is none. -/
def bottomRuns (bottom : Layer) : List Layer := if bottom.isEmpty then [] else [bottom]

/-- Flushes, and then turns all runs into one that hides nothing and holds nothing
unresolved. -/
def compact : Call Event Layered Unit := do
  flush
  let engine ← get
  let keys := Bytes.sortDistinct (engine.runs.flatMap KeyMap.keys)
  let kept ← condenseAll engine.operator true (keys.map fun key => (key, engine.chain key))
  let bottom := kept.filter fun entry => !entry.2.isEmpty
  report (.compacted engine.runs.length bottom.length)
  set { engine with runs := bottomRuns bottom }

/-! ### Reading -/

/-- The resolved value of a key, if it has one. -/
def find? (engine : Layered) (key : Bytes) : Attempt Event (Option Bytes) :=
  Resolution.read engine.operator key (engine.chain key)

/-- The resolved entries in key order; the first key that cannot be read fails. -/
def entries (engine : Layered) : Attempt Event (List (Bytes × Bytes)) := do
  let found ← engine.keys.mapM fun key => do
    return (← engine.find? key).map fun value => (key, value)
  return found.filterMap id

/-! ### The calls together -/

/-- The layered engine. -/
def engine : Engine Layered where
  put key value := write [.put key value]
  get key := Call.inspect fun engine => engine.find? key
  delete key := write [.delete key]
  merge key operand := write [.merge key operand]
  write := write
  flush := flush
  compact := compact
  dump := Call.inspect fun engine => engine.entries

end Layered
end LazyTally
