import Mathlib.Data.UInt
import LazyTally.Proofs.Tally
import LazyTally.Workload.Report

/-!
# Totals of a report

A report says of each key what it should have got.  Read as a tally this is a sum: an add that
succeeds brings one more addend, and the reports of two workers are joined by adding their totals
key by key.  So neither the order of the adds nor that of the workers can be seen in it.

## Main definitions

* `Tally.join`, `Tally.sum` — tallies added key by key.
* `Workload.Report.totals` — the tally of a report.

## Main results

* `Workload.Report.totals_succeeded` — an add that succeeds brings its addend.
* `Workload.Report.totals_join`, `Workload.Report.Full.foldl_join` — joined reports have the sum
  of their totals.
* `Workload.Report.gives_mismatches` — what is listed if every counter of the report can be read.
-/

namespace LazyTally

/-! ### Sums of tallies -/

namespace Tally

/-- Nothing is held. -/
def nothing : Tally := fun _ => none

/-- One key holds a number. -/
def single (key : Bytes) (number : UInt64) : Tally :=
  fun k => if key = k then some number else none

/-- A key that both tallies hold has the sum, and any other key what it has in one of them. -/
def join (tally other : Tally) : Tally := fun key => Option.merge (· + ·) (tally key) (other key)

/-- All tallies joined. -/
def sum (tallies : List Tally) : Tally := tallies.foldr join nothing

theorem join_comm (tally other : Tally) : tally.join other = other.join tally := by
  funext key
  exact Std.Commutative.comm _ _

theorem join_assoc (tally other third : Tally) :
    (tally.join other).join third = tally.join (other.join third) := by
  funext key
  exact Std.Associative.assoc _ _ _

@[simp] theorem nothing_join (tally : Tally) : nothing.join tally = tally := by
  funext key
  exact Option.merge_none_left

@[simp] theorem join_nothing (tally : Tally) : tally.join nothing = tally := by
  rw [join_comm, nothing_join]

@[simp] theorem sum_nil : sum [] = nothing := rfl

@[simp] theorem sum_cons (tally : Tally) (tallies : List Tally) :
    sum (tally :: tallies) = tally.join (sum tallies) := rfl

theorem sum_map_nothing {α : Type} (items : List α) :
    sum (items.map fun _ => nothing) = nothing := by
  induction items with
  | nil => rfl
  | cons item items ih => rw [List.map_cons, sum_cons, ih, nothing_join]

/-- One of the tallies can be taken out of the sum. -/
theorem sum_append_cons (before after : List Tally) (tally : Tally) :
    sum (before ++ tally :: after) = (sum (before ++ after)).join tally := by
  induction before with
  | nil => exact join_comm tally (sum after)
  | cons first before ih =>
    rw [List.cons_append, sum_cons, ih, List.cons_append, sum_cons, join_assoc]

/-- What is held with one more addend: its key has the sum, and any other key what it had. -/
theorem join_single (tally : Tally) (key : Bytes) (delta : UInt64) (k : Bytes) :
    tally.join (single key delta) k =
      if key = k then some ((tally key).getD 0 + delta) else tally k := by
  unfold join single
  by_cases hkey : key = k
  · subst hkey
    rw [if_pos rfl, if_pos rfl]
    cases tally key with
    | none => exact congrArg some (UInt64.zero_add delta).symm
    | some total => rfl
  · rw [if_neg hkey, if_neg hkey, Option.merge_none_right]

end Tally

/-- The first entry of an ascending map and the others are the whole of it. -/
theorem KeyMap.find?_cons_eq_join {entry : Bytes × UInt64} {rest : KeyMap UInt64}
    (h : Ascending (entry :: rest)) :
    KeyMap.find? (entry :: rest) = (Tally.single entry.1 entry.2).join rest.find? := by
  have hhead := (List.pairwise_cons.mp h).1
  funext key
  rw [find?_cons h, Tally.join, Tally.single]
  by_cases hkey : entry.1 = key
  · subst hkey
    have hnone : rest.find? entry.1 = none := find?_eq_none_of_lt hhead
    rw [if_pos rfl, if_pos rfl, hnone, Option.merge_none_right]
  · rw [if_neg hkey, if_neg hkey, Option.merge_none_left]

namespace Workload.Report

/-! ### The tally of a report -/

/-- What each key should have got. -/
def totals (report : Report) : Tally := report.expected.find?

/-- The totals are in key order. -/
def Ordered (report : Report) : Prop := KeyMap.Ascending report.expected

theorem ordered_empty : empty.Ordered := List.Pairwise.nil

@[simp] theorem totals_empty : empty.totals = Tally.nothing := rfl

theorem find?_tally {map : KeyMap UInt64} (h : KeyMap.Ascending map) (key : Bytes)
    (delta : UInt64) :
    (tally map key delta).find? = Tally.join map.find? (Tally.single key delta) := by
  funext k
  rw [tally, KeyMap.find?_alter h, Tally.join_single]

theorem ascending_tally {map : KeyMap UInt64} (h : KeyMap.Ascending map) (key : Bytes)
    (delta : UInt64) : KeyMap.Ascending (tally map key delta) := KeyMap.ascending_alter h key

variable {report other : Report}

theorem Ordered.succeeded (h : report.Ordered) (key : Bytes) (delta : UInt64) :
    (report.succeeded key delta).Ordered := ascending_tally h key delta

/-- An add that succeeds brings its addend. -/
theorem totals_succeeded (h : report.Ordered) (key : Bytes) (delta : UInt64) :
    (report.succeeded key delta).totals = report.totals.join (Tally.single key delta) :=
  find?_tally h key delta

/-! ### Joined reports -/

theorem ascending_foldl_tally {map : KeyMap UInt64} (h : KeyMap.Ascending map)
    (entries : KeyMap UInt64) :
    KeyMap.Ascending (entries.foldl (fun totals entry => tally totals entry.1 entry.2) map) := by
  induction entries generalizing map with
  | nil => exact h
  | cons entry entries ih => exact ih (ascending_tally h entry.1 entry.2)

/-- Entries that are tallied one after the other are all added. -/
theorem find?_foldl_tally {map entries : KeyMap UInt64} (h : KeyMap.Ascending map)
    (hentries : KeyMap.Ascending entries) :
    KeyMap.find? (entries.foldl (fun totals entry => tally totals entry.1 entry.2) map) =
      Tally.join map.find? entries.find? := by
  induction entries generalizing map with
  | nil => exact (Tally.join_nothing map.find?).symm
  | cons entry entries ih =>
    have hrest := (List.pairwise_cons.mp hentries).2
    rw [List.foldl_cons, ih (ascending_tally h entry.1 entry.2) hrest,
      find?_tally h, Tally.join_assoc, KeyMap.find?_cons_eq_join hentries]

theorem Ordered.join (h : report.Ordered) (other : Report) : (report.join other).Ordered :=
  ascending_foldl_tally h other.expected

/-- Joined reports have the sum of their totals. -/
theorem totals_join (h : report.Ordered) (hother : other.Ordered) :
    (report.join other).totals = report.totals.join other.totals := find?_foldl_tally h hother

/-- The report of as many adds, of which none failed. -/
structure Full (count : Nat) (report : Report) : Prop where
  /-- So many adds were issued. -/
  operations_eq : report.operations = count
  /-- None of them failed. -/
  failures_eq : report.failures = 0
  /-- The totals are in key order. -/
  ordered : report.Ordered

theorem Full.join {count count' : Nat} (h : report.Full count) (hother : other.Full count') :
    (report.join other).Full (count + count') := by
  refine ⟨?_, ?_, h.ordered.join other⟩
  · show report.operations + other.operations = _
    rw [h.operations_eq, hother.operations_eq]
  · show report.failures + other.failures = 0
    rw [h.failures_eq, hother.failures_eq]

/-- Reports that are joined one after the other have all their adds, and the sum of their
totals. -/
theorem Full.foldl_join {count each : Nat} (h : report.Full count) {reports : List Report}
    (hreports : ∀ other ∈ reports, other.Full each) :
    (reports.foldl Report.join report).Full (count + reports.length * each) ∧
      (reports.foldl Report.join report).totals =
        report.totals.join (Tally.sum (reports.map totals)) := by
  induction reports generalizing report count with
  | nil =>
    rw [List.length_nil, Nat.zero_mul]
    exact ⟨h, (Tally.join_nothing report.totals).symm⟩
  | cons first reports ih =>
    obtain ⟨hfirst, hrest⟩ := List.forall_mem_cons.mp hreports
    obtain ⟨hfull, htotals⟩ := ih (h.join hfirst) hrest
    have hcount : count + each + reports.length * each = count + (reports.length + 1) * each := by
      rw [Nat.succ_mul]
      omega
    rw [hcount] at hfull
    refine ⟨hfull, ?_⟩
    -- the first report is joined before the others, and both sides add it once
    rw [List.foldl_cons, htotals, totals_join h.ordered hfirst.ordered, List.map_cons,
      Tally.sum_cons, Tally.join_assoc]

/-! ### Mismatches -/

/-- What an entry of the report is listed as, if its counter does not read as it should. -/
def mismatch? (base stored : UInt64) (entry : Bytes × UInt64) : Option Mismatch :=
  if stored = base + entry.2 then none else some ⟨entry.1, base + entry.2, stored⟩

/-- If every counter of the report can be read, those are listed that do not read as they
should. -/
theorem gives_mismatches {σ : Type} {counters : Counters σ} {state : σ}
    {stored : Bytes × UInt64 → UInt64}
    (h : ∀ entry ∈ report.expected, (counters.get entry.1).Gives state (stored entry) state)
    (base : UInt64) :
    (report.mismatches counters base).Gives state
      (report.expected.filterMap fun entry => mismatch? base (stored entry) entry) state := by
  have hentry : ∀ entry ∈ report.expected,
      (counters.get entry.1 >>= fun found =>
        (pure (mismatch? base found entry) : Call Counters.Event σ (Option Mismatch))).Gives state
          (mismatch? base (stored entry) entry) state :=
    fun entry hmem => (h entry hmem).bind (Call.gives_pure _ state)
  -- a mismatch is listed for each counter that is not read as expected
  have hlisted :
      (report.expected.map fun entry => mismatch? base (stored entry) entry).filterMap id =
        report.expected.filterMap fun entry => mismatch? base (stored entry) entry :=
    List.filterMap_map
  rw [← hlisted]
  exact (Call.gives_mapM hentry).bind (Call.gives_pure _ state)

/-- If they all read as they should, none is listed. -/
theorem gives_mismatches_nil {σ : Type} {counters : Counters σ} {state : σ} {base : UInt64}
    (h : ∀ entry ∈ report.expected, (counters.get entry.1).Gives state (base + entry.2) state) :
    (report.mismatches counters base).Gives state [] state := by
  have hnone : ∀ entry ∈ report.expected, mismatch? base (base + entry.2) entry = none :=
    fun _ _ => if_pos rfl
  rw [← List.filterMap_eq_nil_iff.mpr hnone]
  exact gives_mismatches h base

/-- If one of them is off by some amount, it is the one that is listed. -/
theorem gives_mismatches_singleton {σ : Type} {counters : Counters σ} {state : σ} {base : UInt64}
    (hordered : report.Ordered) {entry : Bytes × UInt64} (hmem : entry ∈ report.expected)
    {delta : UInt64} (hdelta : delta ≠ 0)
    (hself : (counters.get entry.1).Gives state (base + entry.2 + delta) state)
    (hothers : ∀ other ∈ report.expected, other.1 ≠ entry.1 →
      (counters.get other.1).Gives state (base + other.2) state) :
    (report.mismatches counters base).Gives state
      [⟨entry.1, base + entry.2, base + entry.2 + delta⟩] state := by
  have hread : ∀ other ∈ report.expected, (counters.get other.1).Gives state
      (if other.1 = entry.1 then base + entry.2 + delta else base + other.2) state := by
    intro other hother
    by_cases hkey : other.1 = entry.1
    · rw [if_pos hkey, hkey]
      exact hself
    · rw [if_neg hkey]
      exact hothers other hother hkey
  have hall := gives_mismatches hread base
  -- the entry stands between others, whose keys differ from its own
  obtain ⟨before, after, hsplit⟩ := List.append_of_mem hmem
  rw [Ordered, KeyMap.Ascending, hsplit] at hordered
  obtain ⟨-, hafter, hbefore⟩ := List.pairwise_append.mp hordered
  have hfirst : ∀ other ∈ before, other.1 ≠ entry.1 := fun other hother heq =>
    List.lt_irrefl entry.1 (heq ▸ hbefore other hother entry List.mem_cons_self)
  have hlast : ∀ other ∈ after, other.1 ≠ entry.1 := fun other hother heq =>
    List.lt_irrefl entry.1 (heq ▸ (List.pairwise_cons.mp hafter).1 other hother)
  have hnone : ∀ others : List (Bytes × UInt64), (∀ other ∈ others, other.1 ≠ entry.1) →
      (others.filterMap fun other => mismatch? base
        (if other.1 = entry.1 then base + entry.2 + delta else base + other.2) other) = [] := by
    intro others hne
    refine List.filterMap_eq_nil_iff.mpr fun other hother => ?_
    rw [if_neg (hne other hother), mismatch?, if_pos rfl]
  have hoff : base + entry.2 + delta ≠ base + entry.2 :=
    fun heq => hdelta (UInt64.add_eq_left.mp heq)
  rw [hsplit, List.filterMap_append, hnone before hfirst, List.filterMap_cons, hnone after hlast,
    if_pos rfl, mismatch?, if_neg hoff] at hall
  exact hall

end Workload.Report
end LazyTally
