import LazyTally.Counter
import LazyTally.Engine.Basic

/-!
# Counters

Counters by name, kept in an engine.  A counter is added to either by reading it
and writing it back, or by merging an operand that the engine folds in later.
The facade reports its own reads and writes, and every failure that it passes on.

## Main definitions

* `Counters` — an engine, the value of an absent counter, and a way to add.
* `Counters.set`, `Counters.get`, `Counters.remove`, `Counters.add`.
* `Counters.Event` — what the facade reports, with its log line and ticker.
-/

namespace LazyTally

/-- How a counter is added to. -/
inductive Counters.Strategy where
  /-- Read the counter and write the sum. -/
  | readModifyWrite
  /-- Merge the addend. -/
  | merge
  deriving DecidableEq, Repr

/-- A call of the facade that can fail on its engine. -/
inductive Counters.Action where
  | set
  | get
  | remove
  | add
  deriving DecidableEq, Repr

/-- The written form of an action. -/
def Counters.Action.text : Counters.Action → String
  | .set => "set"
  | .get => "get"
  | .remove => "remove"
  | .add => "add"

/-- What the facade reports while it works. -/
inductive Counters.Event where
  /-- The engine reported something. -/
  | engine (event : Engine.Event)
  /-- A counter is being read. -/
  | reading (key : Bytes)
  /-- A put, a delete or a merge is being issued. -/
  | writing (key : Bytes)
  /-- The engine failed. -/
  | failed (action : Counters.Action) (key : Bytes) (failure : Failure)
  /-- The bytes stored for a counter are not eight. -/
  | malformed (key : Bytes) (size : Nat)
  deriving DecidableEq, Repr

namespace Counters.Event

/-- The ticker that an event of the facade itself raises. -/
def ticker? : Event → Option Ticker
  | .reading _ => some .counterRead
  | .writing _ => some .counterWrite
  | .engine _ | .failed _ _ _ | .malformed _ _ => none

/-- The log line of an event, if it is logged. -/
def line? : Event → Option LogLine
  | .engine event => event.line?
  | .failed action key failure =>
      some ⟨.error, action.text ++ " " ++ key.text ++ " failed: " ++ failure.message⟩
  | .malformed key size =>
      some ⟨.error, "counter " ++ key.text ++ " holds " ++ size.repr ++ " bytes instead of "
        ++ Counter.size.repr⟩
  | .reading _ | .writing _ => none

end Counters.Event

/-- Counters kept in an engine. -/
structure Counters (σ : Type) where
  /-- Where the counters are kept. -/
  engine : Engine σ
  /-- What an absent counter reads as. -/
  default : UInt64
  /-- How a counter is added to. -/
  strategy : Counters.Strategy

namespace Counters

variable {σ α : Type}

/-- Issues a call on the engine.  A failure is reported and passed on. -/
def issue (action : Action) (key : Bytes) (call : Call Engine.Event σ α) : Call Event σ α := do
  match ← (call.relabel Event.engine).caught with
  | .ok value => pure value
  | .error failure =>
      report (.failed action key failure)
      throw failure

/-- Gives a counter a value. -/
protected def set (counters : Counters σ) (key : Bytes) (value : UInt64) :
    Call Event σ Unit := do
  report (.writing key)
  issue .set key (counters.engine.put key (Counter.encode value))

/-- Reads what is stored for a counter. -/
def decode (counters : Counters σ) (key : Bytes) : Option Bytes → Call Event σ UInt64
  | none => pure counters.default
  | some bytes =>
      match Counter.decode? bytes with
      | some value => pure value
      | none => do
          report (.malformed key bytes.length)
          throw (.corruption key bytes.length)

/-- The value of a counter, or the default if it is absent. -/
protected def get (counters : Counters σ) (key : Bytes) : Call Event σ UInt64 := do
  report (.reading key)
  counters.decode key (← issue .get key (counters.engine.get key))

/-- Removes a counter. -/
protected def remove (counters : Counters σ) (key : Bytes) : Call Event σ Unit := do
  report (.writing key)
  issue .remove key (counters.engine.delete key)

/-- Adds to a counter, wrapping at 2^64. -/
protected def add (counters : Counters σ) (key : Bytes) (delta : UInt64) :
    Call Event σ Unit :=
  match counters.strategy with
  | .readModifyWrite => do
      let base ← counters.get key
      counters.set key (base + delta)
  | .merge => do
      report (.writing key)
      issue .add key (counters.engine.merge key (Counter.encode delta))

end Counters
end LazyTally
