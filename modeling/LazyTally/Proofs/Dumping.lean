import LazyTally.Proofs.Canonical
import LazyTally.Proofs.Effects

/-!
# Dumping

A dump reads the keys that occur in the layers, in key order, and the first one that cannot be
read ends it.  Which keys occur is a matter of the layers: a tombstone makes its key occur, and a
compaction takes it away.  But a key that does not occur reads as absent, so the dump does not
depend on it.  It is told by what the reads of single keys give.

## Main definitions

* `entriesOf` — the entries of the keys that have a value.
* `Layered.entry` — what a dump does with one key.

## Main results

* `Layered.reads_or_fails` — every key can be read, or one is the first that cannot.
* `Layered.result_dump_of_ok` — if every key can be read, the dump has the values, in key order.
* `Layered.result_dump_of_error` — else it fails as the first key does that cannot.
* `Layered.result_dump_congr` — engines that read alike dump alike.
* `Layered.Reachable.dump_of_gets` — what a dump of a reachable engine gives, from the reads.
-/

namespace LazyTally

/-! ### Keys in order -/

/-- Of a list, everything succeeds, or something is the first that does not. -/
theorem exists_first_error {ε α β : Type} (f : α → Except ε β) (l : List α) :
    (∀ a ∈ l, ∃ b, f a = .ok b) ∨
      ∃ before a after e, l = before ++ a :: after ∧ f a = .error e ∧
        ∀ c ∈ before, ∃ b, f c = .ok b := by
  induction l with
  | nil => exact .inl nofun
  | cons a l ih =>
    cases hfirst : f a with
    | error e => exact .inr ⟨[], a, l, e, rfl, hfirst, nofun⟩
    | ok b =>
      have hhead : ∃ b, f a = .ok b := ⟨b, hfirst⟩
      -- the first failure of the rest is the first of all
      rcases ih with hall | ⟨before, c, after, e, rfl, herror, hbefore⟩
      · exact .inl (List.forall_mem_cons.mpr ⟨hhead, hall⟩)
      · exact .inr ⟨a :: before, c, after, e, rfl, herror,
          List.forall_mem_cons.mpr ⟨hhead, hbefore⟩⟩

/-- In a list in key order the smaller keys are those that come before. -/
theorem Bytes.mem_before_iff {before after : List Bytes} {key k : Bytes}
    (h : (before ++ key :: after).Pairwise (· < ·)) (hmem : k ∈ before ++ key :: after) :
    k ∈ before ↔ k < key := by
  obtain ⟨-, hfrom, hacross⟩ := List.pairwise_append.mp h
  constructor
  · intro hbefore
    exact hacross k hbefore key List.mem_cons_self
  · intro hlt
    rcases List.mem_append.mp hmem with hbefore | hrest
    · exact hbefore
    · rcases List.mem_cons.mp hrest with rfl | hafter
      · exact absurd hlt (List.lt_irrefl k)
      · have hgt := (List.pairwise_cons.mp hfrom).1 k hafter
        exact absurd (List.lt_trans hlt hgt) (List.lt_irrefl k)

/-- The entries of the keys that have a value, in the order of the keys. -/
def entriesOf (keys : List Bytes) (values : Bytes → Option Bytes) : KeyMap Bytes :=
  keys.filterMap fun key => (values key).map fun value => (key, value)

theorem mem_entriesOf {keys : List Bytes} {values : Bytes → Option Bytes} {key value : Bytes} :
    (key, value) ∈ entriesOf keys values ↔ key ∈ keys ∧ values key = some value := by
  simp only [entriesOf, List.mem_filterMap, Option.map_eq_some_iff, Prod.mk.injEq]
  constructor
  · rintro ⟨k, hmem, v, hvalue, rfl, rfl⟩
    exact ⟨hmem, hvalue⟩
  · rintro ⟨hmem, hvalue⟩
    exact ⟨key, hmem, value, hvalue, rfl, rfl⟩

theorem ascending_entriesOf {keys : List Bytes} (h : keys.Pairwise (· < ·))
    (values : Bytes → Option Bytes) : (entriesOf keys values).Ascending := by
  refine List.Pairwise.filterMap _ ?_ h
  intro key key' hlt entry hentry entry' hentry'
  obtain ⟨value, -, rfl⟩ := Option.map_eq_some_iff.mp hentry
  obtain ⟨value', -, rfl⟩ := Option.map_eq_some_iff.mp hentry'
  exact hlt

/-! ### What a dump gives -/

namespace Layered

variable {engine other : Layered}

theorem pairwise_keys (engine : Layered) : engine.keys.Pairwise (· < ·) :=
  Bytes.pairwise_sortDistinct _

/-- A key that does not occur in any layer has no history. -/
theorem history_eq_nil (h : engine.Ascending) {key : Bytes} (hkey : key ∉ engine.keys) :
    engine.history key = [] := by
  refine Layer.flatMap_records_eq_nil ?_ hkey
  intro layer hlayer
  rcases List.mem_append.mp hlayer with hrun | hmemtable
  · exact h.2 layer hrun
  · rw [List.mem_singleton.mp hmemtable]
    exact h.1

/-- A key that does not occur in any layer reads as absent. -/
theorem result_get_of_notMem (h : engine.Ascending) {key : Bytes} (hkey : key ∉ engine.keys) :
    (Layered.engine.get key).result engine = .ok none := by
  have hchain : engine.chain key = Chain.ofRecords [] := by
    rw [Layers.chain, history_eq_nil h hkey]
  show (Resolution.read engine.operator key (engine.chain key)).result = _
  rw [hchain]
  rfl

/-- Every key can be read, or one is the first that cannot. -/
theorem reads_or_fails (h : engine.Ascending) :
    (∀ key, ∃ value, (Layered.engine.get key).result engine = .ok value) ∨
      ∃ key failure, (Layered.engine.get key).result engine = .error failure ∧
        ∀ k < key, ∃ value, (Layered.engine.get k).result engine = .ok value := by
  -- a key that is in no layer reads as absent, so only the others can fail
  have habsent : ∀ key, key ∉ engine.keys →
      ∃ value, (Layered.engine.get key).result engine = .ok value :=
    fun key hkey => ⟨none, result_get_of_notMem h hkey⟩
  rcases exists_first_error (fun key => (Layered.engine.get key).result engine) engine.keys with
    hall | ⟨before, key, after, failure, hkeys, hfails, hbefore⟩
  · left
    intro key
    by_cases hmem : key ∈ engine.keys
    · exact hall key hmem
    · exact habsent key hmem
  · right
    refine ⟨key, failure, hfails, ?_⟩
    intro k hlt
    by_cases hmem : k ∈ engine.keys
    · -- the keys are in order, so all smaller ones stand before the first that fails
      have hasc := engine.pairwise_keys
      rw [hkeys] at hmem hasc
      exact hbefore k ((Bytes.mem_before_iff hasc hmem).mpr hlt)
    · exact habsent k hmem

/-- What a dump does with one key. -/
def entry (engine : Layered) (key : Bytes) : Attempt Engine.Event (Option (Bytes × Bytes)) := do
  return (← engine.find? key).map fun value => (key, value)

/-- If every key can be read, the dump has the values, in key order. -/
theorem result_dump_of_ok {values : Bytes → Option Bytes}
    (h : ∀ key, (Layered.engine.get key).result engine = .ok (values key)) :
    Layered.engine.dump.result engine = .ok (entriesOf engine.keys values) := by
  have hentry : ∀ key, (engine.entry key).result =
      .ok ((values key).map fun value => (key, value)) :=
    fun key => Attempt.result_bind_of_ok (h key) _
  have hfound := Attempt.result_mapM (l := engine.keys) fun key _ => hentry key
  exact (Attempt.result_bind_of_ok hfound _).trans (congrArg Except.ok List.filterMap_map)

/-- A dump has exactly the entries that single keys read as. -/
theorem mem_entriesOf_keys (h : engine.Ascending) {values : Bytes → Option Bytes}
    (hvalues : ∀ key, (Layered.engine.get key).result engine = .ok (values key))
    {key value : Bytes} :
    (key, value) ∈ entriesOf engine.keys values ↔ values key = some value := by
  rw [mem_entriesOf, and_iff_right_iff_imp]
  intro hvalue
  by_contra hkey
  have habsent := (hvalues key).symm.trans (result_get_of_notMem h hkey)
  rw [hvalue] at habsent
  exact nomatch habsent

/-- If a key is the first that cannot be read, the dump fails as its read does. -/
theorem result_dump_of_error (h : engine.Ascending) {key : Bytes} {failure : Failure}
    (hfails : (Layered.engine.get key).result engine = .error failure)
    (hfirst : ∀ k < key, ∃ value, (Layered.engine.get k).result engine = .ok value) :
    Layered.engine.dump.result engine = .error failure := by
  -- a key that fails is in some layer
  have hmem : key ∈ engine.keys := by
    by_contra hkey
    exact nomatch hfails.symm.trans (result_get_of_notMem h hkey)
  obtain ⟨before, after, hkeys⟩ := List.append_of_mem hmem
  have hasc := engine.pairwise_keys
  rw [hkeys] at hasc
  have hbefore : ∀ k ∈ before, ∃ found, (engine.entry k).result = .ok found := by
    intro k hk
    have hlt := (Bytes.mem_before_iff hasc (List.mem_append_left _ hk)).mp hk
    obtain ⟨value, hvalue⟩ := hfirst k hlt
    exact ⟨_, Attempt.result_bind_of_ok hvalue _⟩
  have hentry : (engine.entry key).result = .error failure := Attempt.result_bind_of_error hfails _
  have hfound : (engine.keys.mapM engine.entry).result = .error failure := by
    rw [hkeys]
    exact Attempt.result_mapM_of_error hbefore hentry
  exact Attempt.result_bind_of_error hfound _

/-- Engines that read alike dump alike, whichever keys occur in their layers. -/
theorem result_dump_congr (h : engine.Ascending) (hother : other.Ascending)
    (hget : ∀ key, (Layered.engine.get key).result other = (Layered.engine.get key).result engine) :
    Layered.engine.dump.result other = Layered.engine.dump.result engine := by
  -- both dumps list what is read, or both fail at the smallest key that fails
  rcases reads_or_fails h with hall | ⟨key, failure, hfails, hfirst⟩
  · choose values hvalues using hall
    have hvalues' : ∀ key, (Layered.engine.get key).result other = .ok (values key) :=
      fun key => (hget key).trans (hvalues key)
    have hasc := ascending_entriesOf engine.pairwise_keys values
    have hasc' := ascending_entriesOf other.pairwise_keys values
    have hsame : entriesOf other.keys values = entriesOf engine.keys values := by
      refine KeyMap.Ascending.eq_of_mem_iff hasc' hasc ?_
      rintro ⟨key, value⟩
      rw [mem_entriesOf_keys h hvalues, mem_entriesOf_keys hother hvalues']
    rw [result_dump_of_ok hvalues, result_dump_of_ok hvalues', hsame]
  · have hfails' := (hget key).trans hfails
    have hfirst' : ∀ k < key, ∃ value, (Layered.engine.get k).result other = .ok value := by
      intro k hlt
      rw [hget k]
      exact hfirst k hlt
    rw [result_dump_of_error h hfails hfirst, result_dump_of_error hother hfails' hfirst']

/-- If every key of a reachable engine can be read, its dump has the entries that the keys read
as, each once and in key order.  If some key cannot be read there is a smallest one that cannot,
and the dump fails as the read of that key does. -/
theorem Reachable.dump_of_gets (h : engine.Reachable) :
    ((∀ key, ∃ stored, (Layered.engine.get key).result engine = .ok stored) →
      ∃ entries : KeyMap Bytes, Layered.engine.dump.result engine = .ok entries ∧
        entries.Ascending ∧
        ∀ key value, (key, value) ∈ entries ↔
          (Layered.engine.get key).result engine = .ok (some value)) ∧
    ((∃ key failure, (Layered.engine.get key).result engine = .error failure) →
      ∃ key failure, (Layered.engine.get key).result engine = .error failure ∧
        (∀ k < key, ∃ stored, (Layered.engine.get k).result engine = .ok stored) ∧
        Layered.engine.dump.result engine = .error failure) := by
  obtain ⟨operator, hopen⟩ := h.openUnder
  have hasc := hopen.ascending
  constructor
  · intro hall
    choose values hvalues using hall
    refine ⟨entriesOf engine.keys values, result_dump_of_ok hvalues,
      ascending_entriesOf engine.pairwise_keys values, ?_⟩
    intro key value
    rw [mem_entriesOf_keys hasc hvalues, hvalues key, Except.ok.injEq]
  · rintro ⟨key, failure, hfails⟩
    -- some key fails, and among the failing keys there is a smallest
    rcases reads_or_fails hasc with hall | ⟨smallest, first, hfirst, hbefore⟩
    · obtain ⟨stored, hstored⟩ := hall key
      exact nomatch hfails.symm.trans hstored
    · exact ⟨smallest, first, hfirst, hbefore, result_dump_of_error hasc hfirst hbefore⟩

/-- A value in a run, a key deleted over a put, and operands of two keys in both layers: with an
operator the dump has the two resolved keys and the value, and without one it names the smaller
of the two keys that cannot be read. -/
theorem Reachable.dump_of_gets_layers :
    let script : Script :=
      [.merge [3] [5], .put [2] [7], .put [4] [1], .flush,
        .write [.merge [1, 9] [6], .delete [4], .merge [3] [8]]]
    let resolving := Script.after script (Layered.opened [] none ⟨some .fullPartial, 0, true⟩)
    let keeping := Script.after script (Layered.opened [] none ⟨none, 0, true⟩)
    resolving.Reachable ∧ keeping.Reachable ∧
      (∃ entries : KeyMap Bytes, Layered.engine.dump.result resolving = .ok entries ∧
        entries.Ascending ∧ ([2], [7]) ∈ entries ∧ ([3], Counter.encode 0) ∈ entries ∧
        ∀ value, ([4], value) ∉ entries) ∧
      Layered.engine.dump.result keeping = .error (.engineRead
        "merge operands for key [1, 9] but no merge operator configured") := by
  intro script resolving keeping
  have hempty : ∀ options, Reachable (Layered.opened [] none options) :=
    fun options => .opened options (result_ofStore (.inl rfl))
  have hresolving : resolving.Reachable := (hempty _).after script
  have hkeeping : keeping.Reachable := (hempty _).after script
  refine ⟨hresolving, hkeeping, ?_, ?_⟩
  · obtain ⟨kind, hopen⟩ := hresolving.exists_kind rfl
    have hall : ∀ key, ∃ stored, (Layered.engine.get key).result resolving = .ok stored :=
      fun key => ⟨_, hopen.result_get key⟩
    obtain ⟨entries, hdump, hasc, hmem⟩ := (Reachable.dump_of_gets hresolving).1 hall
    refine ⟨entries, hdump, hasc, (hmem _ _).mpr rfl, (hmem _ _).mpr rfl, ?_⟩
    intro value hvalue
    exact nomatch (hmem _ _).mp hvalue
  · have hthree : ∃ failure, (Layered.engine.get [3]).result keeping = .error failure := ⟨_, rfl⟩
    obtain ⟨key, failure, hfails, hbefore, hdump⟩ :=
      (Reachable.dump_of_gets hkeeping).2 ⟨[3], hthree⟩
    obtain ⟨operator, hopen⟩ := hkeeping.openUnder
    have hmem : key ∈ keeping.keys := by
      by_contra hkey
      exact nomatch hfails.symm.trans (result_get_of_notMem hopen.ascending hkey)
    have hkeys : keeping.keys = [[1, 9], [2], [3], [4]] := by decide
    -- the first of these keys cannot be read, so no other is the smallest that cannot
    have hone : key = [1, 9] := by
      rcases List.mem_cons.mp (hkeys ▸ hmem) with hone | hlater
      · exact hone
      · have hlt : ∀ k ∈ ([[2], [3], [4]] : List Bytes), [1, 9] < k := by decide
        obtain ⟨stored, hstored⟩ := hbefore [1, 9] (hlt key hlater)
        exact nomatch hstored
    subst hone
    obtain rfl := Except.error.inj hfails
    exact hdump

end Layered
end LazyTally
