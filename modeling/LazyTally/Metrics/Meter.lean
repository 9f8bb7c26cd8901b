import LazyTally.Counters
import LazyTally.Metrics.Sink

/-!
# Metering

A meter says which parts of a store are given a sink: the engine with its operator,
and the counters.  What they count is seen in what they report, for each event raises
one ticker or none.

## Main definitions

* `Meter` — the parts that are metered.
* `Meter.engineSink`, `Meter.countersSink` — the sinks that the parts are given.
* `Meter.tickers` — the tickers that events raise under a meter.
-/

namespace LazyTally

/-- The parts of a store that are given a sink. -/
structure Meter where
  /-- The engine and its operator. -/
  engine : Bool
  /-- The counters. -/
  counters : Bool
  deriving DecidableEq, Repr

namespace Meter

/-- Something is metered. -/
def isActive (meter : Meter) : Bool := meter.engine || meter.counters

/-- The sink of the engine and its operator. -/
def engineSink (meter : Meter) : Option Sink := if meter.engine then some {} else none

/-- The sink of the counters. -/
def countersSink (meter : Meter) : Option Sink := if meter.counters then some {} else none

/-- The ticker that an event raises, if the part that reports it is metered. -/
def ticker? (meter : Meter) : Counters.Event → Option Ticker
  | .engine event => if meter.engine then event.ticker? else none
  | event => if meter.counters then event.ticker? else none

/-- The tickers that events raise, in order. -/
def tickers (meter : Meter) (events : List Counters.Event) : List Ticker :=
  events.filterMap meter.ticker?

end Meter
end LazyTally
