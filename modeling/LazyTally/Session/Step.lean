import LazyTally.Engine.Layered
import LazyTally.Engine.Refusing
import LazyTally.Workload.Run

/-!
# Steps of a session

What a client can ask of a store with counters in it, and what it can be told.

## Main definitions

* `Session.Request` — what can be asked of an open engine.
* `Session.Step` — a request, or a change of the session itself.
* `Session.Reply` — the answer of a step that succeeded.
* `Session.Failure` — why a step did not succeed.
-/

namespace LazyTally
namespace Session

/-- What can be asked of an open engine and the counters in it. -/
inductive Request where
  /-- Gives a counter a value. -/
  | set (key : Bytes) (value : UInt64)
  /-- Reads a counter. -/
  | get (key : Bytes)
  /-- Removes a counter. -/
  | remove (key : Bytes)
  /-- Adds to a counter. -/
  | add (key : Bytes) (delta : UInt64)
  /-- Asks how counters are added to. -/
  | strategy
  /-- Gives a key any bytes. -/
  | rawPut (key value : Bytes)
  /-- Merges any bytes into a key. -/
  | rawMerge (key operand : Bytes)
  /-- Deletes a key. -/
  | rawDelete (key : Bytes)
  /-- Reads the bytes of a key. -/
  | rawGet (key : Bytes)
  /-- Applies a batch. -/
  | write (batch : Batch)
  /-- Moves the memtable into a run. -/
  | flush
  /-- Resolves everything into one run. -/
  | compact
  /-- Lists the resolved entries. -/
  | dump
  /-- Lists the records of all layers. -/
  | records
  /-- Runs the workload of a configuration in JSON. -/
  | workload (config : Json)
  /-- Compares the counters with given totals, or with those of the last workload. -/
  | mismatches (base : UInt64) (expected : Option (KeyMap UInt64))
  deriving Repr

/-- A step of a session. -/
inductive Step where
  /-- Asks something of the open engine, `times` times.  A strategy given here holds
  for this step only. -/
  | request (request : Request) (times : Nat) (strategy : Option Counters.Strategy)
  /-- Closes the store, if it is open, and opens it with options in JSON; without
  any, with the standard ones. -/
  | reopen (options : Option Json)
  /-- Sets all statistics to zero. -/
  | resetStatistics
  /-- Replaces the refusals between the clients and the engine. -/
  | refuse (refusals : Engine.Refusals)
  deriving Repr

/-- The answer of a step that succeeded. -/
inductive Reply where
  /-- There is nothing to tell. -/
  | done
  /-- The value of a counter. -/
  | count (value : UInt64)
  /-- How counters are added to. -/
  | strategy (strategy : Counters.Strategy)
  /-- The bytes of a key, if it has any. -/
  | bytes (value : Option Bytes)
  /-- The resolved entries. -/
  | entries (entries : List (Bytes × Bytes))
  /-- The records of all layers. -/
  | layers (layers : Layers)
  /-- What a workload did. -/
  | report (report : Workload.Report)
  /-- The counters that are not what they should be. -/
  | mismatches (found : List Workload.Mismatch)
  /-- The mark of the store that was opened. -/
  | opened (identity : Option String)
  deriving DecidableEq, Repr

/-- Why a step did not succeed. -/
inductive Failure where
  /-- The store failed. -/
  | store (failure : LazyTally.Failure)
  /-- The workload ended without a report. -/
  | workload (error : Workload.Error)
  /-- A configuration cannot be read. -/
  | unreadable
  /-- No engine is open. -/
  | closed
  deriving DecidableEq, Repr

end Session
end LazyTally
