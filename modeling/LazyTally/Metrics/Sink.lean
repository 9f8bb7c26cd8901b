import LazyTally.Metrics.Statistics
import LazyTally.Trace

/-!
# Sinks

The parts of a store count what they do into statistics that they share.  A part is
built with a sink or without one, and only with a sink does it reach the statistics,
which stand beside the state of its work.  What it counts, it counts while it works.

## Main definitions

* `Sink` — the way of a part to the shared statistics.
* `Counting ω` — a traced computation that can reach statistics.
* `Supplied σ` — a state with statistics beside it.
* `record` — counts into a sink, if there is one.
-/

namespace LazyTally

/-- The way of a part to the statistics that all parts share.  A part without a sink
has statistics disabled. -/
structure Sink where
  deriving DecidableEq, Repr

/-- A traced computation that can reach statistics. -/
abbrev Counting (ω : Type) := StateT Statistics (Traced ω)

/-- The same computation, its events seen through `f`. -/
def Counting.relabel {ω ω' α : Type} (f : ω → ω') (x : Counting ω α) : Counting ω' α :=
  fun statistics => (x.run statistics).relabel f

/-- A state with statistics beside it. -/
structure Supplied (σ : Type) where
  /-- The state. -/
  state : σ
  /-- What was counted so far. -/
  statistics : Statistics

/-! ### Counting -/

/-- Computations that can reach statistics. -/
class Counts (m : Type → Type) where
  /-- Changes the statistics. -/
  changeStatistics : (Statistics → Statistics) → m Unit

instance {m : Type → Type} [Monad m] : Counts (StateT Statistics m) where
  changeStatistics change := modify change

instance {σ : Type} {m : Type → Type} [Monad m] : Counts (StateT (Supplied σ) m) where
  changeStatistics change :=
    modify fun supplied => { supplied with statistics := change supplied.statistics }

instance {ε : Type} {m : Type → Type} [Monad m] [Counts m] : Counts (ExceptT ε m) where
  changeStatistics change := ExceptT.lift (Counts.changeStatistics change)

/-- Counts into a sink, if there is one. -/
def record {m : Type → Type} [Monad m] [Counts m] (sink : Option Sink) (ticker : Ticker)
    (amount : UInt64) : m Unit :=
  match sink with
  | some _ => Counts.changeStatistics fun statistics => statistics.record ticker amount
  | none => pure ()

/-! ### Calls on a state beside statistics -/

namespace Supplied

variable {ω σ α : Type}

/-- The state. -/
def read : Call ω (Supplied σ) σ := do return (← get).state

/-- Changes the state. -/
def change (f : σ → σ) : Call ω (Supplied σ) Unit :=
  modify fun supplied => { supplied with state := f supplied.state }

/-- Work on the statistics that is made on a state and leaves the state alone. -/
def inspect (work : σ → Call ω Statistics α) : Call ω (Supplied σ) α :=
  ExceptT.mk fun supplied => do
    let (result, statistics) ← (work supplied.state).outcome supplied.statistics
    pure (result, { supplied with statistics := statistics })

end Supplied

instance {ω σ : Type} : MonadLift (Call ω Statistics) (Call ω (Supplied σ)) where
  monadLift work := Supplied.inspect fun _ => work

end LazyTally
