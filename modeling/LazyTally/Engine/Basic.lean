import LazyTally.Operator.Basic
import LazyTally.Store.Batch

/-!
# Engines

An engine stores values by key and resolves merged operands when it sees fit.
Everything above an engine talks to it through the eight calls listed here, and
any of them may fail.

## Main definitions

* `Engine.Event` — what an engine reports, with its log line and ticker.
* `Engine σ` — the calls of an engine whose state is a `σ`.
-/

namespace LazyTally

/-- What an engine reports while it works. -/
inductive Engine.Event where
  /-- The merge operator reported something. -/
  | operator (event : Operator.Event)
  /-- The operator of the store is not the configured one. -/
  | operatorMismatch (stored configured : Option String)
  /-- Operands cannot be resolved because no operator is configured. -/
  | operatorMissing (key : Bytes)
  /-- Operands of a key are being resolved into a value. -/
  | fullMerge (key : Bytes)
  /-- Operands of a key were resolved into one operand. -/
  | partialMerge (key : Bytes)
  /-- Operands stay as they are because no operator is configured. -/
  | operandsKept (key : Bytes) (operands : Nat)
  /-- The chain of a key in the memtable is longer than the limit. -/
  | chainLimitReached (key : Bytes) (operands : Nat)
  /-- Such a chain was resolved. -/
  | chainResolved (key : Bytes)
  /-- The memtable became the run of the given number. -/
  | flushed (keys run : Nat)
  /-- All runs became one. -/
  | compacted (runs keys : Nat)
  deriving DecidableEq, Repr

namespace Engine.Event

/-- The ticker that an event raises. -/
def ticker? : Event → Option Ticker
  | .operator event => event.ticker?
  | .fullMerge _ => some .fullMerge
  | .partialMerge _ => some .partialMerge
  | .chainResolved _ => some .chainLimitMerge
  | .flushed _ _ => some .flush
  | .compacted _ _ => some .compaction
  | .operatorMismatch _ _ | .operatorMissing _ | .operandsKept _ _ | .chainLimitReached _ _ =>
      none

/-- The log line of an event, if it is logged. -/
def line? : Event → Option LogLine
  | .operator event => some event.line
  | .operatorMismatch stored configured =>
      some ⟨.error, (Failure.operatorMismatch stored configured).message⟩
  | .operatorMissing key =>
      some ⟨.error, "operands found for key " ++ key.text ++ " without a merge operator"⟩
  | .operandsKept key operands =>
      some ⟨.warn, "keeping " ++ operands.repr ++ " unresolved operands for key " ++ key.text⟩
  | .chainLimitReached key operands =>
      some ⟨.debug, "key " ++ key.text ++ " reached " ++ operands.repr
        ++ " successive merges, resolving"⟩
  | .flushed keys run =>
      some ⟨.debug, "flushed " ++ keys.repr ++ " keys into run #" ++ run.repr⟩
  | .compacted runs keys =>
      some ⟨.debug, "compacted " ++ runs.repr ++ " runs into " ++ keys.repr ++ " keys"⟩
  | .fullMerge _ | .partialMerge _ | .chainResolved _ => none

end Engine.Event

/-- The calls of an engine whose state is a `σ`. -/
structure Engine (σ : Type) where
  /-- Gives a key a value. -/
  put (key value : Bytes) : Call Engine.Event σ Unit
  /-- The resolved value of a key, if it has one. -/
  get (key : Bytes) : Call Engine.Event σ (Option Bytes)
  /-- Deletes a key. -/
  delete (key : Bytes) : Call Engine.Event σ Unit
  /-- Appends an operand without reading the value. -/
  merge (key operand : Bytes) : Call Engine.Event σ Unit
  /-- Applies the writes of a batch together. -/
  write (batch : Batch) : Call Engine.Event σ Unit
  /-- Moves the memtable into a run. -/
  flush : Call Engine.Event σ Unit
  /-- Resolves everything into one run. -/
  compact : Call Engine.Event σ Unit
  /-- The resolved entries, in key order. -/
  dump : Call Engine.Event σ (List (Bytes × Bytes))

end LazyTally
