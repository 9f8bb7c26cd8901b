import LazyTally.Workload.Config
import LazyTally.Workload.Report

/-!
# Running a workload

Workers add random amounts to counters, one worker after the other.  What a worker
issues depends only on the configuration and the place of the worker.  A worker knows
of the counters no more than how to add to them.

## Main definitions

* `Workload.nextAdd` — the next add of a worker.
* `Workload.runWorkerWith`, `Workload.runWith` — one worker, and all of them.
* `Workload.runWorker`, `Workload.run` — the same on counters in an engine.
* `Workload.Error` — why a workload ended without a report.
* `Workload.Event` — what a workload reports, with its log line.
-/

namespace LazyTally
namespace Workload

/-- Why a workload ended without a report. -/
inductive Error where
  /-- There is nobody to add. -/
  | noWorkers
  /-- There is no counter to add to. -/
  | noKeys
  /-- There is nothing to add. -/
  | noDelta
  /-- An add failed. -/
  | operation (worker index : Nat) (cause : Failure)
  deriving DecidableEq, Repr

/-- What an error says to its reader. -/
def Error.message : Error → String
  | .noWorkers => "workload needs at least one worker"
  | .noKeys => "workload needs a non empty key space"
  | .noDelta => "max_delta must be positive"
  | .operation worker index cause =>
      "worker " ++ worker.repr ++ " failed at operation " ++ index.repr ++ ": " ++ cause.message

/-- What a workload reports. -/
inductive Event where
  /-- The counters reported something. -/
  | counters (event : Counters.Event)
  /-- The workload begins. -/
  | started (config : Config)
  /-- An add failed and the worker goes on. -/
  | operationFailed (worker index : Nat) (failure : Failure)
  deriving DecidableEq, Repr

/-- The event of the counters that an event is, if it is one. -/
def Event.ofCounters? : Event → Option Counters.Event
  | .counters event => some event
  | .started _ | .operationFailed _ _ _ => none

/-- The log line of an event, if it is logged. -/
def Event.line? : Event → Option LogLine
  | .counters event => event.line?
  | .started config =>
      some ⟨.debug, "running " ++ config.workers.toNat.repr ++ " workers x "
        ++ config.opsPerWorker.toNat.repr ++ " adds over " ++ config.keySpace.toNat.repr
        ++ " keys (" ++ config.order.text ++ ")"⟩
  | .operationFailed worker index failure =>
      some ⟨.warn, "worker " ++ worker.repr ++ " operation " ++ index.repr ++ " failed: "
        ++ failure.message⟩

/-! ### Workers -/

/-- An add that a worker issues. -/
structure Add where
  /-- The storage key of the counter. -/
  key : Bytes
  /-- What is added to it. -/
  delta : UInt64
  deriving DecidableEq, Repr

/-- The key source of a worker. -/
def keySource (config : Config) (worker : Nat) : KeySource :=
  .start config.order config.keySpace (config.seed + UInt64.ofNat worker)

/-- The next add of a worker: a counter, and then an amount. -/
def nextAdd (config : Config) (source : KeySource) : Add × KeySource :=
  let (index, source) := source.nextIndex
  let (delta, source) := source.draw 1 config.maxDelta
  (⟨storageKey index, delta⟩, source)

variable {σ : Type}

/-- Issues the remaining adds of a worker, of which `index` were issued before. -/
def issueAdds (addTo : Bytes → UInt64 → Call Counters.Event σ Unit) (config : Config)
    (worker : Nat) : (remaining : Nat) → (index : Nat) → KeySource → Report →
      Call Event σ (Except Error Report)
  | 0, _, _, report => pure (.ok report)
  | remaining + 1, index, source, total => do
      let (add, source) := nextAdd config source
      match ← ((addTo add.key add.delta).relabel Event.counters).caught with
      | .ok () =>
          issueAdds addTo config worker remaining (index + 1) source
            (total.succeeded add.key add.delta)
      | .error failure =>
          if config.stopOnError then pure (.error (.operation worker index failure))
          else
            report (.operationFailed worker index failure)
            issueAdds addTo config worker remaining (index + 1) source total.failed

/-- Runs one worker. -/
def runWorkerWith (addTo : Bytes → UInt64 → Call Counters.Event σ Unit) (config : Config)
    (worker : Nat) : Call Event σ (Except Error Report) :=
  issueAdds addTo config worker config.opsPerWorker.toNat 0 (keySource config worker)
    Report.empty

/-- Runs the remaining workers, of which `worker` is the first.  The first error ends
the run. -/
def runWorkers (addTo : Bytes → UInt64 → Call Counters.Event σ Unit) (config : Config) :
    (remaining : Nat) → (worker : Nat) → Report → Call Event σ (Except Error Report)
  | 0, _, report => pure (.ok report)
  | remaining + 1, worker, total => do
      match ← runWorkerWith addTo config worker with
      | .ok report => runWorkers addTo config remaining (worker + 1) (total.join report)
      | .error error => pure (.error error)

/-- The first reason, if any, not to run a configuration. -/
def refusal? (config : Config) : Option Error :=
  if config.workers = 0 then some .noWorkers
  else if config.keySpace = 0 then some .noKeys
  else if config.maxDelta = 0 then some .noDelta
  else none

/-- Runs a workload with a way to add to counters. -/
def runWith (addTo : Bytes → UInt64 → Call Counters.Event σ Unit) (config : Config) :
    Call Event σ (Except Error Report) := do
  match refusal? config with
  | some error => pure (.error error)
  | none =>
      report (.started config)
      runWorkers addTo config config.workers.toNat 0 Report.empty

/-! ### Workloads on counters -/

/-- Runs one worker on counters. -/
def runWorker (counters : Counters σ) (config : Config) (worker : Nat) :
    Call Event σ (Except Error Report) := runWorkerWith counters.add config worker

/-- Runs a workload on counters. -/
def run (counters : Counters σ) (config : Config) : Call Event σ (Except Error Report) :=
  runWith counters.add config

end Workload
end LazyTally
