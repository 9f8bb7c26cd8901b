import LazyTally.Counters
import LazyTally.Metrics.Sink

/-!
# Counters with a sink

The facade as it is handed out: with a sink of its own, or without one.  It counts a
read or a write before it issues it, whether or not the engine then fails.

## Main definitions

* `Counters.Metered` — counters in an engine beside statistics, with or without a sink.
* `Counters.Metered.set`, `Counters.Metered.get`, `Counters.Metered.remove`,
  `Counters.Metered.add` — the calls.
-/

namespace LazyTally

/-- Counters in an engine beside statistics, with a sink of their own or without one. -/
structure Counters.Metered (σ : Type) extends Counters (Supplied σ) where
  /-- Where the facade counts. -/
  sink : Option Sink

namespace Counters.Metered

variable {σ : Type}

/-- Gives a counter a value. -/
protected def set (counters : Counters.Metered σ) (key : Bytes) (value : UInt64) :
    Call Event (Supplied σ) Unit := do
  report (.writing key)
  record counters.sink .counterWrite 1
  issue .set key (counters.engine.put key (Counter.encode value))

/-- The value of a counter, or the default if it is absent. -/
protected def get (counters : Counters.Metered σ) (key : Bytes) :
    Call Event (Supplied σ) UInt64 := do
  report (.reading key)
  record counters.sink .counterRead 1
  counters.decode key (← issue .get key (counters.engine.get key))

/-- Removes a counter. -/
protected def remove (counters : Counters.Metered σ) (key : Bytes) :
    Call Event (Supplied σ) Unit := do
  report (.writing key)
  record counters.sink .counterWrite 1
  issue .remove key (counters.engine.delete key)

/-- Adds to a counter, wrapping at 2^64. -/
protected def add (counters : Counters.Metered σ) (key : Bytes) (delta : UInt64) :
    Call Event (Supplied σ) Unit :=
  match counters.strategy with
  | .readModifyWrite => do
      let base ← counters.get key
      counters.set key (base + delta)
  | .merge => do
      report (.writing key)
      record counters.sink .counterWrite 1
      issue .add key (counters.engine.merge key (Counter.encode delta))

end Counters.Metered
end LazyTally
