import LazyTally.Metrics.Ticker

/-!
# Statistics

The counts of all tickers, each an unsigned 64 bit number that wraps.  A count
is read and raised at the place of its ticker, while a snapshot pairs the rows
of the table with the counts in order; both agree because the rows stand in the
order of the places.

## Main definitions

* `Statistics.record`, `Statistics.get`, `Statistics.reset`.
* `Statistics.snapshot` — all counts under their published names.

## Main results

* `Statistics.get_record` — a record raises its own ticker and no other.
-/

namespace LazyTally

/-- A count for each ticker. -/
structure Statistics where
  /-- The counts, by place. -/
  counts : Vector UInt64 Ticker.count
  deriving DecidableEq, Repr

namespace Statistics

/-- Statistics that have counted nothing. -/
def empty : Statistics := ⟨Vector.replicate Ticker.count 0⟩

/-- The count of a ticker. -/
protected def get (statistics : Statistics) (ticker : Ticker) : UInt64 :=
  statistics.counts[ticker.index]

/-- Raises the count of a ticker, wrapping at 2^64. -/
def record (statistics : Statistics) (ticker : Ticker) (amount : UInt64) : Statistics :=
  ⟨statistics.counts.set ticker.index (statistics.counts[ticker.index] + amount)⟩

/-- Sets every count to zero. -/
def reset (statistics : Statistics) : Statistics := ⟨statistics.counts.map fun _ => 0⟩

/-- Published name, help text and count of every ticker, in the order of the table. -/
def snapshot (statistics : Statistics) : List (String × String × UInt64) :=
  Ticker.table.zipWith (fun row count => (row.name, row.help, count)) statistics.counts.toList

/-- Raises each listed ticker by one, as often as it is listed. -/
def recordAll (statistics : Statistics) (tickers : List Ticker) : Statistics :=
  tickers.foldl (fun counted ticker => counted.record ticker 1) statistics

/-! ### The counts after a change -/

/-- A record raises the count of its own ticker and no other. -/
theorem get_record (statistics : Statistics) (ticker other : Ticker) (amount : UInt64) :
    (statistics.record ticker amount).get other =
      if ticker = other then statistics.get other + amount else statistics.get other := by
  unfold Statistics.get record
  split
  · next h => subst h; exact Vector.getElem_set_self ticker.index.isLt
  · next h =>
    exact Vector.getElem_set_ne ticker.index.isLt other.index.isLt fun heq =>
      h (Ticker.index_inj (Fin.ext heq))

/-- After a reset every count is zero. -/
theorem get_reset (statistics : Statistics) (ticker : Ticker) :
    statistics.reset.get ticker = 0 := Vector.getElem_map _ _

/-- Nothing was counted at first. -/
theorem get_empty (ticker : Ticker) : empty.get ticker = 0 := Vector.getElem_replicate _

end Statistics
end LazyTally
