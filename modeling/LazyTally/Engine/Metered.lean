import LazyTally.Engine.Layered
import LazyTally.Operator.Metered

/-!
# The layered engine with a sink

The layered engine as a store opens it.  It holds a sink or none, has built its operator
with the same sink, and counts resolutions, flushes and compactions where they are
made.  Its layers and the statistics are the state of its calls; everything else about
it is fixed when it is opened.

## Main definitions

* `Layered.Metered` — an engine, apart from its layers.
* `Layered.Metered.unmetered` — the same engine without its sink.
* `Layered.Metered.ofStore`, `Layered.Metered.close` — opening and closing.
* `Layered.Metered.full`, `Layered.Metered.partially` — one use of the operator.
* `Layered.Metered.write`, `Layered.Metered.flush`, `Layered.Metered.compact`,
  `Layered.Metered.find?`, `Layered.Metered.entries` — the calls.
* `Layered.Metered.engine` — all calls together.
-/

namespace LazyTally

open Engine (Event)

/-- A layered engine with a sink or without one, apart from its layers. -/
structure Layered.Metered where
  /-- The kind of the operator that the options name. -/
  kind : Option OperatorKind
  /-- The operator that resolves operands. -/
  operator : Option Operator.Metered
  /-- The identity that the store is marked with. -/
  identity : Option String
  /-- How many operands of a key the memtable may hold; zero is no limit. -/
  limit : UInt64
  /-- Where the engine counts. -/
  sink : Option Sink
  /-- The operator is of that kind and was built with the sink of the engine. -/
  operator_eq : operator = kind.map fun kind => kind.build sink

namespace Layered.Metered

/-- The operator without its sink. -/
def plainOperator (engine : Metered) : Option Operator := engine.kind.map OperatorKind.operator

/-- The engine without its sink. -/
def unmetered (engine : Metered) (layers : Layers) : Layered where
  toLayers := layers
  operator := engine.plainOperator
  identity := engine.identity
  limit := engine.limit

/-! ### Opening and closing -/

/-- The engine that options make of a store, and its layers. -/
def build (store : Store) (options : Options) (sink : Option Sink) : Metered × Layers :=
  let operator := options.operator.map fun kind => kind.build sink
  ({ kind := options.operator
     operator := operator
     identity := store.operator.or (operator.map Operator.Metered.name)
     limit := options.maxSuccessiveMerges
     sink := sink
     operator_eq := rfl },
   { memtable := [], runs := store.runs })

/-- Opens a store. -/
def ofStore (store : Store) (options : Options) (sink : Option Sink) :
    Attempt Event (Metered × Layers) := do
  checkOperator store.operator options.operatorName?
  pure (build store options sink)

/-- Closes the engine.  To close it is no work. -/
def close (engine : Metered) (layers : Layers) : Store := (engine.unmetered layers).close

/-! ### Resolution -/

/-- Resolves operands over an existing value. -/
def full (engine : Metered) (key : Bytes) (existing : Option Bytes) (operands : List Bytes) :
    Call Event Statistics Bytes := do
  match engine.operator with
  | none =>
      report (.operatorMissing key)
      throw (.engineRead ("merge operands for key " ++ key.text
        ++ " but no merge operator configured"))
  | some operator =>
      report (.fullMerge key)
      record engine.sink .fullMerge 1
      let merged : Counting Event (Option Bytes) :=
        (operator.fullMerge key existing operands).relabel Event.operator
      match ← merged with
      | some value => pure value
      | none => throw (.mergeFailed key)

/-- Resolves operands into one operand, if the operator can. -/
def partially (engine : Metered) (operator : Operator.Metered) (key : Bytes)
    (operands : List Bytes) : Counting Event (Option Bytes) := do
  let merged ← Counting.relabel Event.operator <|
    match operands with
    | [] => pure none
    | [operand] =>
        if operator.allowsSingle then operator.partialMergeAll key [operand] else pure none
    | [left, right] => operator.partialMerge key left right
    | operands => operator.partialMergeAll key operands
  if merged.isSome then
    report (.partialMerge key)
    record engine.sink .partialMerge 1
  pure merged

/-- The value that a reader sees. -/
def read (engine : Metered) (key : Bytes) (chain : Chain) :
    Call Event Statistics (Option Bytes) :=
  if chain.operands.isEmpty then pure chain.value?
  else some <$> engine.full key chain.value? chain.operands

/-- The record that a chain over a known value, or over nothing, resolves to. -/
def settle (engine : Metered) (key : Bytes) (chain : Chain) : Call Event Statistics Record :=
  .put <$> engine.full key chain.value? chain.operands

/-- The records that a flush or a compaction keeps of a chain. -/
def condense (engine : Metered) (key : Bytes) (chain : Chain) (bottommost : Bool) :
    Call Event Statistics (List Record) :=
  if chain.operands.isEmpty then pure (Resolution.bare chain bottommost)
  else
    match engine.operator with
    | none => do
        report (.operandsKept key chain.operands.length)
        pure chain.records
    | some operator =>
        if chain.base.isSome || bottommost then do
          pure [← engine.settle key chain]
        else if operator.mergesOnFlush chain.operands then do
          match ← engine.partially operator key chain.operands with
          | some operand => pure [.merge operand]
          | none => pure chain.operandRecords
        else pure chain.operandRecords

/-- The record that replaces a chain beyond its limit, unless its operands are kept. -/
def shorten (engine : Metered) (operator : Operator.Metered) (key : Bytes) (chain : Chain) :
    Call Event Statistics (Option Record) :=
  if chain.base.isSome then some <$> engine.settle key chain
  else do return (← engine.partially operator key chain.operands).map Record.merge

/-! ### Writing -/

/-- Resolves the chain of a key in the memtable if it is longer than the limit. -/
def enforceLimit (engine : Metered) (key : Bytes) : Call Event (Supplied Layers) Unit := do
  let layers ← Supplied.read
  let chain := Chain.ofRecords (layers.memtable.records key)
  match engine.operator with
  | none => pure ()
  | some operator =>
      if engine.limit = 0 ∨ chain.operands.length ≤ engine.limit.toNat then pure ()
      else
        report (.chainLimitReached key chain.operands.length)
        match ← engine.shorten operator key chain with
        | none => pure ()
        | some shortened =>
            report (.chainResolved key)
            record engine.sink .chainLimitMerge 1
            Supplied.change fun _ =>
              { layers with memtable := KeyMap.insert layers.memtable key [shortened] }

/-- Applies the writes of a batch in order, and then enforces the limit on every
key that got operands. -/
def write (engine : Metered) (batch : Batch) : Call Event (Supplied Layers) Unit := do
  Supplied.change fun layers =>
    { layers with memtable := batch.foldl Layer.push layers.memtable }
  batch.mergedKeys.forM engine.enforceLimit

/-! ### Reorganising -/

/-- The records that remain of the chain of each key. -/
def condenseAll (engine : Metered) (bottommost : Bool) (chains : KeyMap Chain) :
    Call Event Statistics Layer :=
  chains.mapM fun (key, chain) => do
    return (key, ← engine.condense key chain bottommost)

/-- Turns the memtable into the newest run, unless it holds nothing. -/
def flush (engine : Metered) : Call Event (Supplied Layers) Unit := do
  let layers ← Supplied.read
  if layers.memtable.isEmpty then pure ()
  else
    Supplied.change fun _ => { layers with memtable := [] }
    let run ← engine.condenseAll false layers.memtable.chains
    report (.flushed run.length layers.runs.length)
    Supplied.change fun _ => { memtable := [], runs := layers.runs ++ [run] }
    record engine.sink .flush 1

/-- Flushes, and then turns all runs into one that hides nothing and holds nothing
unresolved. -/
def compact (engine : Metered) : Call Event (Supplied Layers) Unit := do
  engine.flush
  let layers ← Supplied.read
  let keys := Bytes.sortDistinct (layers.runs.flatMap KeyMap.keys)
  let kept ← engine.condenseAll true (keys.map fun key => (key, layers.chain key))
  let bottom := kept.filter fun entry => !entry.2.isEmpty
  report (.compacted layers.runs.length bottom.length)
  Supplied.change fun _ => { layers with runs := bottomRuns bottom }
  record engine.sink .compaction 1

/-! ### Reading -/

/-- The resolved value of a key, if it has one. -/
def find? (engine : Metered) (layers : Layers) (key : Bytes) :
    Call Event Statistics (Option Bytes) :=
  engine.read key (layers.chain key)

/-- The resolved entries in key order; the first key that cannot be read fails. -/
def entries (engine : Metered) (layers : Layers) :
    Call Event Statistics (List (Bytes × Bytes)) := do
  let found ← layers.keys.mapM fun key => do
    return (← engine.find? layers key).map fun value => (key, value)
  return found.filterMap id

/-! ### The calls together -/

/-- The layered engine with its sink. -/
def engine (engine : Metered) : Engine (Supplied Layers) where
  put key value := engine.write [.put key value]
  get key := Supplied.inspect fun layers => engine.find? layers key
  delete key := engine.write [.delete key]
  merge key operand := engine.write [.merge key operand]
  write := engine.write
  flush := engine.flush
  compact := engine.compact
  dump := Supplied.inspect engine.entries

end Layered.Metered
end LazyTally
