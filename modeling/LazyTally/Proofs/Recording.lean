import Mathlib.Data.List.DropRight
import Mathlib.Data.UInt
import LazyTally.Metrics.Statistics

/-!
# What statistics have recorded

A change of the statistics does to each count something that depends on that count alone, so the
counts can be followed one by one.  A count is then what was recorded for its ticker since the last
reset, added up and wrapped at 2^64, whatever was recorded for other tickers in between.  A snapshot
shows just these counts: it takes them by place, and the row that stands at a place is that of the
ticker whose count it is.

## Main definitions

* `Statistics.Change`, `Statistics.after` — what can be done to statistics, and what it leaves.
* `Statistics.recorded` — what was recorded for a ticker since the last reset.

## Main results

* `Statistics.get_foldl_apply` — each count is changed on its own.
* `Statistics.toNat_get_after` — a count is the sum of what was recorded.
* `Statistics.snapshot_eq` — a snapshot pairs each row with the count of its own ticker.
* `Statistics.counts_and_snapshot` — all of it, for any sequence of changes.
-/

namespace LazyTally

/-! ### Rows and places -/

namespace Ticker

/-- The row at a place is that of the ticker with the place. -/
theorem index_row (place : Fin table.length) : table[place].ticker.index.val = place.val := by
  decide +revert

/-- Every ticker has a row. -/
theorem mem_map_table (ticker : Ticker) : ticker ∈ table.map Row.ticker := by
  obtain ⟨row, hrow, hticker⟩ := Option.map_eq_some_iff.mp (row_index ticker)
  exact List.mem_map.mpr ⟨row, List.mem_of_getElem? hrow, hticker⟩

/-- Different rows have different names. -/
theorem nodup_names : (table.map Row.name).Nodup := by decide

end Ticker

namespace Statistics

/-! ### Changes -/

/-- What can be done to statistics. -/
inductive Change where
  /-- The count of a ticker is raised. -/
  | record (ticker : Ticker) (amount : UInt64)
  /-- All counts are set to zero. -/
  | reset
  deriving DecidableEq, Repr

namespace Change

/-- Does the change. -/
def apply (statistics : Statistics) : Change → Statistics
  | record ticker amount => statistics.record ticker amount
  | reset => statistics.reset

/-- What the change does to the count of a ticker. -/
def next (ticker : Ticker) (count : UInt64) : Change → UInt64
  | record other amount => if other = ticker then count + amount else count
  | reset => 0

/-- The change sets all counts to zero. -/
def isReset : Change → Bool
  | record _ _ => false
  | reset => true

/-- The change is not about another ticker. -/
def concerns (ticker : Ticker) : Change → Bool
  | record other _ => other = ticker
  | reset => true

/-- What the change records for a ticker, if it does. -/
def amount? (ticker : Ticker) : Change → Option UInt64
  | record other amount => if other = ticker then some amount else none
  | reset => none

/-- A change about another ticker leaves a count alone. -/
theorem next_of_not_concerns {ticker : Ticker} {change : Change} (h : ¬change.concerns ticker)
    (count : UInt64) : change.next ticker count = count := by
  cases change with
  | record other amount => exact if_neg fun hsame => h (decide_eq_true hsame)
  | reset => exact absurd rfl h

end Change

/-- What is left of fresh statistics after some changes. -/
def after (changes : List Change) : Statistics := changes.foldl Change.apply empty

/-- What was recorded for a ticker since the last reset, oldest first. -/
def recorded (ticker : Ticker) (changes : List Change) : List UInt64 :=
  (changes.rtakeWhile fun change => !change.isReset).filterMap (Change.amount? ticker)

/-! ### One count at a time -/

theorem get_apply (statistics : Statistics) (ticker : Ticker) (change : Change) :
    (change.apply statistics).get ticker = change.next ticker (statistics.get ticker) := by
  cases change with
  | record other amount => exact statistics.get_record other ticker amount
  | reset => exact statistics.get_reset ticker

/-- Each count is changed on its own. -/
theorem get_foldl_apply (statistics : Statistics) (ticker : Ticker) (changes : List Change) :
    (changes.foldl Change.apply statistics).get ticker =
      changes.foldl (Change.next ticker) (statistics.get ticker) := by
  induction changes generalizing statistics with
  | nil => rfl
  | cons change changes ih => rw [List.foldl_cons, ih, get_apply, List.foldl_cons]

theorem get_after (ticker : Ticker) (changes : List Change) :
    (after changes).get ticker = changes.foldl (Change.next ticker) 0 := by
  rw [after, get_foldl_apply, get_empty]

/-- What is recorded for other tickers makes no difference. -/
theorem get_after_filter (ticker : Ticker) (changes : List Change) :
    (after (changes.filter (Change.concerns ticker))).get ticker =
      (after changes).get ticker := by
  rw [get_after, get_after, List.foldl_filter]
  congr 1
  funext count change
  split
  · rfl
  · next hother => exact (Change.next_of_not_concerns hother count).symm

/-! ### Sums -/

theorem recorded_concat (ticker : Ticker) (changes : List Change) (change : Change) :
    recorded ticker (changes ++ [change]) =
      if change.isReset then [] else recorded ticker changes ++ (change.amount? ticker).toList := by
  unfold recorded
  cases change with
  | record other amount =>
    rw [List.rtakeWhile_concat_pos _ _ _ rfl, List.filterMap_append]
    cases hamount : (Change.record other amount).amount? ticker <;>
      simp [hamount, Change.isReset]
  | reset => rw [List.rtakeWhile_concat_neg _ _ _ Bool.false_ne_true]; rfl

/-- A count is the sum of what was recorded for its ticker since the last reset. -/
theorem toNat_get_after (ticker : Ticker) (changes : List Change) :
    ((after changes).get ticker).toNat =
      ((recorded ticker changes).map UInt64.toNat).sum % 2 ^ 64 := by
  rw [get_after]
  induction changes using List.reverseRecOn with
  | nil => rfl
  | append_singleton changes change ih =>
    rw [List.foldl_append, List.foldl_cons, List.foldl_nil, recorded_concat]
    cases change with
    | reset => rfl
    | record other amount =>
      -- a record of another ticker leaves this one
      by_cases hsame : other = ticker
      · simp only [Change.next, Change.isReset, Change.amount?, hsame, if_true, Bool.false_eq_true,
          if_false, Option.toList_some, List.map_append, List.map_singleton, List.sum_append,
          List.sum_singleton, UInt64.toNat_add, ih, Nat.mod_add_mod]
      · simp only [Change.next, Change.isReset, Change.amount?, hsame, Bool.false_eq_true,
          if_false, Option.toList_none, List.append_nil, ih]

/-! ### Snapshots -/

/-- A snapshot pairs each row with the count of its own ticker. -/
theorem snapshot_eq (statistics : Statistics) :
    statistics.snapshot =
      Ticker.table.map fun row => (row.name, row.help, statistics.get row.ticker) := by
  apply List.ext_getElem
  · simp [snapshot, Ticker.table]
  · intro i hsnapshot hrows
    have hrow : i < Ticker.table.length := by simpa using hrows
    have hplace : Ticker.table[i].ticker.index.val = i := Ticker.index_row ⟨i, hrow⟩
    simp only [snapshot, List.getElem_zipWith, List.getElem_map, Vector.getElem_toList,
      Statistics.get, Fin.getElem_fin, hplace]

/-- Whatever is recorded and reset on fresh statistics, the count of each ticker is the sum modulo
2^64 of what was recorded for it since the last reset, and it would be the same if nothing had been
recorded for other tickers.  A snapshot has the rows of the table in their order, each with the
count of its own ticker; every ticker has a row, and no two rows have the same name. -/
theorem counts_and_snapshot (changes : List Change) :
    (∀ ticker, ((after changes).get ticker).toNat =
      ((recorded ticker changes).map UInt64.toNat).sum % 2 ^ 64) ∧
    (∀ ticker, (after (changes.filter (Change.concerns ticker))).get ticker =
      (after changes).get ticker) ∧
    (after changes).snapshot =
      Ticker.table.map (fun row => (row.name, row.help, (after changes).get row.ticker)) ∧
    (∀ ticker, ticker ∈ Ticker.table.map Ticker.Row.ticker) ∧
    (Ticker.table.map Ticker.Row.name).Nodup :=
  ⟨fun ticker => toNat_get_after ticker changes, fun ticker => get_after_filter ticker changes,
    snapshot_eq (after changes), Ticker.mem_map_table, Ticker.nodup_names⟩

/-- A reset forgets, other tickers do not matter, and the count wraps. -/
example : (after [.record .flush 7, .reset, .record .flush 3, .record .compaction 5,
    .record .flush 18446744073709551615]).get .flush = 2 := by decide +kernel

end Statistics
end LazyTally
