/-!
# Tickers

A ticker counts one kind of work.  The table has one row for each, in the order
in which reports list them.

## Main definitions

* `Ticker`, `Ticker.index` — the tickers and their places.
* `Ticker.table` — the rows with the published name and the help text.

## Main results

* `Ticker.row_index` — the row at the place of a ticker is its own.
-/

namespace LazyTally

/-- A kind of work that is counted. -/
inductive Ticker where
  /-- Resolutions of operands into a value. -/
  | fullMerge
  /-- Resolutions of operands into one operand. -/
  | partialMerge
  /-- Resolutions because a chain grew beyond its limit. -/
  | chainLimitMerge
  /-- Malformed values folded as zero. -/
  | corruptOperand
  /-- Flushes of a memtable that held something. -/
  | flush
  /-- Compactions of the whole key range. -/
  | compaction
  /-- Reads issued by counters. -/
  | counterRead
  /-- Writes issued by counters. -/
  | counterWrite
  deriving DecidableEq, Repr

namespace Ticker

/-- The number of tickers. -/
abbrev count : Nat := 8

/-- The place of a ticker. -/
def index : Ticker → Fin count
  | fullMerge => 0
  | partialMerge => 1
  | chainLimitMerge => 2
  | corruptOperand => 3
  | flush => 4
  | compaction => 5
  | counterRead => 6
  | counterWrite => 7

/-- What is published about a ticker. -/
structure Row where
  /-- The ticker. -/
  ticker : Ticker
  /-- Its published name. -/
  name : String
  /-- What it counts. -/
  help : String
  deriving DecidableEq, Repr

/-- One row for each ticker, in the order of reports. -/
def table : List Row := [
  ⟨fullMerge, "merge_full_total", "Full merge resolutions performed"⟩,
  ⟨partialMerge, "merge_partial_total", "Partial merge resolutions performed"⟩,
  ⟨chainLimitMerge, "merge_chain_limit_total",
    "Resolutions triggered by the successive merge threshold"⟩,
  ⟨corruptOperand, "merge_corrupt_operand_total",
    "Malformed operands or base values folded as zero"⟩,
  ⟨flush, "engine_flush_total", "Memtable flushes"⟩,
  ⟨compaction, "engine_compaction_total", "Full range compactions"⟩,
  ⟨counterRead, "counter_read_total", "Point reads issued by counters"⟩,
  ⟨counterWrite, "counter_write_total", "Puts, deletes and merges issued by counters"⟩]

/-- The ticker with a published name. -/
def ofName? (name : String) : Option Ticker :=
  (table.find? fun row => row.name == name).map Row.ticker

/-- The row at the place of a ticker is its own. -/
theorem row_index (ticker : Ticker) :
    (table[ticker.index.val]?).map Row.ticker = some ticker := by
  cases ticker <;> rfl

/-- Different tickers have different places. -/
theorem index_inj {ticker other : Ticker} (h : ticker.index = other.index) : ticker = other :=
  Option.some.inj ((row_index ticker).symm.trans (h ▸ row_index other))

end Ticker
end LazyTally
