import LazyTally.Counters
import LazyTally.KeyMap

/-!
# Reports of a workload

What a workload did, and what the counters should hold because of it.

## Main definitions

* `Workload.Report` — counts of adds, and the total that each key should have got.
* `Workload.Report.join` — one report of two workers.
* `Workload.Report.mismatches` — the keys whose counters hold something else.
-/

namespace LazyTally
namespace Workload

/-- What a workload did. -/
structure Report where
  /-- How many adds were issued. -/
  operations : Nat
  /-- How many of them failed. -/
  failures : Nat
  /-- The sum of the addends that succeeded, by key; sums wrap at 2^64. -/
  expected : KeyMap UInt64
  deriving DecidableEq, Repr

/-- A key whose counter is not what it should be. -/
structure Mismatch where
  /-- The key. -/
  key : Bytes
  /-- What its counter should be. -/
  expected : UInt64
  /-- What it is. -/
  stored : UInt64
  deriving DecidableEq, Repr

namespace Report

/-- Nothing was done. -/
def empty : Report := ⟨0, 0, []⟩

/-- Adds to the total of a key. -/
def tally (totals : KeyMap UInt64) (key : Bytes) (delta : UInt64) : KeyMap UInt64 :=
  KeyMap.alter (fun total => total.getD 0 + delta) totals key

/-- The report after an add that succeeded. -/
def succeeded (report : Report) (key : Bytes) (delta : UInt64) : Report :=
  { report with
    operations := report.operations + 1
    expected := tally report.expected key delta }

/-- The report after an add that failed. -/
def failed (report : Report) : Report :=
  { report with operations := report.operations + 1, failures := report.failures + 1 }

/-- The report of two workers. -/
def join (report other : Report) : Report where
  operations := report.operations + other.operations
  failures := report.failures + other.failures
  expected := other.expected.foldl (fun totals entry => tally totals entry.1 entry.2)
    report.expected

variable {σ : Type}

/-- Reads every counter of the report and lists those that do not hold their total on
top of `base`, which every counter held before. -/
def mismatchesWith (report : Report) (read : Bytes → Call Counters.Event σ UInt64)
    (base : UInt64) : Call Counters.Event σ (List Mismatch) := do
  let found ← report.expected.mapM fun (key, delta) => do
    let stored ← read key
    let expected := base + delta
    return if stored = expected then none else some ⟨key, expected, stored⟩
  return found.filterMap id

/-- The mismatches that are found on counters in an engine. -/
def mismatches (report : Report) (counters : Counters σ) (base : UInt64) :
    Call Counters.Event σ (List Mismatch) := report.mismatchesWith counters.get base

end Report
end Workload
end LazyTally
