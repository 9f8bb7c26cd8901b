import LazyTally.Proofs.Dumping
import LazyTally.Proofs.FailingRuns
import LazyTally.Proofs.StorageKeys

/-!
# Counters in listings

Whatever lists keys lists them in byte order, and the keys of counters are made for it: zeros in
front of an index bring it to sixteen digits, and among strings of equally many digits the byte
order is the order of the numbers.  So a listing has the counters in the order of their indexes, as
long as sixteen digits are enough for them.  From seventeen digits on this ends, but different
counters still have different keys.

## Main definitions

* `KeyMap.InIndexOrder` — counters with indexes of at most sixteen digits are listed by index.

## Main results

* `map_lt_map_of_ofDigitChars_lt` — equally many digits are in the order of their numbers.
* `storageKey_lt` — so are the keys of counters, up to sixteen digits.
* `Layered.Reachable.ascending_of_dump`, `Workload.ordered_of_result_run` — dumps and reports are in
  key order.
* `storageKeys_distinct_and_ordered` — what this means for counters.
-/

namespace LazyTally

/-! ### The order of digits -/

/-- The number of a digit is below ten. -/
theorem digit_le_nine {c : Char} (h : c.isDigit) : c.toNat - '0'.toNat ≤ 9 :=
  Nat.sub_le_sub_right (Char.isDigit_iff_toNat.mp h).2 '0'.toNat

theorem ofDigitChars_lt {digits : List Char} (h : ∀ c ∈ digits, c.isDigit) :
    Nat.ofDigitChars 10 digits 0 < 10 ^ digits.length := by
  induction digits with
  | nil => decide
  | cons c rest ih =>
    obtain ⟨hc, hrest⟩ := List.forall_mem_cons.mp h
    have hle := Nat.mul_le_mul_left (10 ^ rest.length) (digit_le_nine hc)
    have hlt := ih hrest
    rw [Nat.ofDigitChars_cons, Nat.mul_zero, Nat.zero_add, Nat.ofDigitChars_eq_ofDigitChars_zero,
      List.length_cons, Nat.pow_succ]
    omega

/-- Of two strings of equally many digits, the one with the smaller number comes first. -/
theorem map_lt_map_of_ofDigitChars_lt {digits others : List Char}
    (hlength : digits.length = others.length) (h : ∀ c ∈ digits, c.isDigit)
    (hothers : ∀ c ∈ others, c.isDigit)
    (hlt : Nat.ofDigitChars 10 digits 0 < Nat.ofDigitChars 10 others 0) :
    (digits.map fun c => c.toNat.toUInt8) < others.map fun c => c.toNat.toUInt8 := by
  induction digits generalizing others with
  | nil =>
    obtain rfl := List.length_eq_zero_iff.mp hlength.symm
    exact absurd hlt (Nat.lt_irrefl _)
  | cons c rest ih =>
    cases others with
    | nil => exact nomatch hlength
    | cons d others =>
      have hlength : rest.length = others.length := Nat.succ.inj hlength
      obtain ⟨hc, hrest⟩ := List.forall_mem_cons.mp h
      obtain ⟨hd, hothers⟩ := List.forall_mem_cons.mp hothers
      rw [Nat.ofDigitChars_cons, Nat.ofDigitChars_cons, Nat.ofDigitChars_eq_ofDigitChars_zero,
        @Nat.ofDigitChars_eq_ofDigitChars_zero others, Nat.mul_zero, Nat.zero_add, Nat.zero_add,
        hlength] at hlt
      rw [List.map_cons, List.map_cons, List.cons_lt_cons_iff, UInt8.lt_iff_toNat_lt,
        ← UInt8.toNat_inj, toNat_byte_of_isDigit hc, toNat_byte_of_isDigit hd]
      -- the first digits decide, unless they are the same
      rcases Nat.lt_trichotomy c.toNat d.toNat with hless | hsame | hgreater
      · exact .inl hless
      · rw [hsame] at hlt
        exact .inr ⟨hsame, ih hlength hrest hothers (Nat.add_lt_add_iff_left.mp hlt)⟩
      · have hsmall := ofDigitChars_lt hothers
        have hzero : '0'.toNat ≤ d.toNat := (Char.isDigit_iff_toNat.mp hd).1
        have hstep := Nat.mul_le_mul_left (10 ^ others.length)
          (show d.toNat - '0'.toNat + 1 ≤ c.toNat - '0'.toNat by omega)
        rw [Nat.mul_add, Nat.mul_one] at hstep
        omega

theorem length_paddedDigits {width value : Nat} (hwidth : 0 < width) (h : value < 10 ^ width) :
    (paddedDigits width value).length = width := by
  have hle := (Nat.length_toDigits_le_iff (by decide) hwidth).mpr h
  rw [paddedDigits, List.length_leftpad]
  omega

/-- As long as sixteen digits are enough, a counter with a smaller index has a smaller key. -/
theorem storageKey_lt {index other : UInt64} (hlt : index < other) (h : other.toNat < 10 ^ 16) :
    storageKey index < storageKey other := by
  have hnat : index.toNat < other.toNat := UInt64.lt_iff_toNat_lt.mp hlt
  have hlength : (paddedDigits 16 index.toNat).length = (paddedDigits 16 other.toNat).length := by
    rw [length_paddedDigits (by decide) h, length_paddedDigits (by decide) (Nat.lt_trans hnat h)]
  unfold storageKey
  generalize "counter".toList = word
  rw [List.map_append, List.map_append]
  apply List.append_left_lt
  apply map_lt_map_of_ofDigitChars_lt hlength
  · exact fun c hc => isDigit_of_mem_paddedDigits hc
  · exact fun c hc => isDigit_of_mem_paddedDigits hc
  · rw [ofDigitChars_paddedDigits, ofDigitChars_paddedDigits]
    exact hnat

/-! ### Counters in a listing -/

/-- Of two counters whose indexes have at most sixteen digits, the one that is listed first has the
smaller index. -/
def KeyMap.InIndexOrder {α : Type} (map : KeyMap α) : Prop :=
  map.Pairwise fun entry later => ∀ index other : UInt64,
    entry.1 = storageKey index → later.1 = storageKey other →
      index.toNat < 10 ^ 16 → other.toNat < 10 ^ 16 → index < other

/-- What lists its keys in byte order lists counters in the order of their indexes. -/
theorem KeyMap.Ascending.inIndexOrder {α : Type} {map : KeyMap α} (h : map.Ascending) :
    map.InIndexOrder := by
  refine h.imp fun {entry later} hlt index other hentry hlater hindex _ => ?_
  rw [hentry, hlater] at hlt
  by_contra hnot
  rcases UInt64.lt_or_eq_of_le (UInt64.not_lt.mp hnot) with hless | rfl
  · exact List.lt_asymm hlt (storageKey_lt hless hindex)
  · exact List.lt_irrefl _ hlt

/-- A dump lists its keys in byte order. -/
theorem Layered.Reachable.ascending_of_dump {engine : Layered} (h : engine.Reachable)
    {entries : KeyMap Bytes} (hdump : Layered.engine.dump.result engine = .ok entries) :
    entries.Ascending := by
  obtain ⟨operator, hopen⟩ := h.openUnder
  rcases reads_or_fails hopen.ascending with hall | ⟨key, failure, hfails, hfirst⟩
  · choose values hvalues using hall
    obtain rfl := Except.ok.inj ((result_dump_of_ok hvalues).symm.trans hdump)
    exact ascending_entriesOf engine.pairwise_keys values
  · exact nomatch (result_dump_of_error hopen.ascending hfails hfirst).symm.trans hdump

namespace Workload

variable {σ : Type}

/-- A report lists its keys in byte order. -/
theorem ordered_of_result_run {counters : Counters σ} {config : Config} {state : σ}
    {report : Report} (h : (run counters config).result state = .ok (.ok report)) :
    report.Ordered := by
  cases hvalid : refusal? config with
  | some error =>
    rw [run, runWith, hvalid] at h
    cases h
  | none =>
    have hgoes := goesThrough_run counters config state hvalid
    rw [GoesThrough] at hgoes
    split at hgoes
    · -- the run gave a report, so every worker went through its plan
      obtain rfl := Except.ok.inj (Except.ok.inj (hgoes.1.symm.trans h))
      exact (tells_foldl_join_of_perm counters state (List.Perm.refl _)).2.ordered
    · -- a run that ends with an error gives no report
      obtain ⟨cause, reached, -, hresult, -⟩ := hgoes
      cases hresult.symm.trans h

end Workload

/-- Different counters have different keys, whatever their indexes.  If sixteen digits are enough
for the larger of two indexes, the keys are in their order.  So every dump of an engine and every
report of a workload lists such counters in the order of their indexes. -/
theorem storageKeys_distinct_and_ordered :
    (∀ index other : UInt64, storageKey index = storageKey other → index = other) ∧
    (∀ index other : UInt64, index < other → other.toNat < 10 ^ 16 →
      storageKey index < storageKey other) ∧
    (∀ (engine : Layered) (entries : KeyMap Bytes), engine.Reachable →
      Layered.engine.dump.result engine = .ok entries → entries.InIndexOrder) ∧
    (∀ {σ : Type} (counters : Counters σ) (config : Workload.Config) (state : σ)
      (report : Workload.Report),
      (Workload.run counters config).result state = .ok (.ok report) →
        report.expected.InIndexOrder) := by
  refine ⟨fun index other h => storageKey_inj h, fun index other hlt h => storageKey_lt hlt h,
    ?_, ?_⟩
  · intro engine entries h hdump
    exact (h.ascending_of_dump hdump).inIndexOrder
  · intro σ counters config state report h
    exact (Workload.ordered_of_result_run h).inIndexOrder

/-- The ninth and the tenth counter, whose indexes would change places without the zeros in front:
in a dump over two layers, and in the report of a worker that visits eleven counters in turn. -/
theorem storageKeys_distinct_and_ordered_nine_ten :
    let script : Script := [.merge (storageKey 10) [7], .flush, .put (storageKey 9) [3]]
    let engine := Script.after script (Layered.opened [] none ⟨some .fullPartial, 0, true⟩)
    let entries : KeyMap Bytes := [(storageKey 9, [3]), (storageKey 10, Counter.encode 0)]
    let counters : Counters Layered := ⟨Layered.engine, 0, .merge⟩
    let config : Workload.Config := ⟨1, 11, 11, .sequential, 7, 1, true⟩
    (9 : UInt64) < 10 ∧ (10 : UInt64).toNat < 10 ^ 16 ∧ storageKey 9 < storageKey 10 ∧
      engine.Reachable ∧ Layered.engine.dump.result engine = .ok entries ∧
      entries.InIndexOrder ∧
      ∃ report : Workload.Report,
        (Workload.run counters config).result engine = .ok (.ok report) ∧
        report.expected = (List.range 11).map (fun index => (storageKey (.ofNat index), 1)) ∧
        report.expected.InIndexOrder := by
  intro script engine entries counters config
  obtain ⟨-, hordered, hdumps, hreports⟩ := storageKeys_distinct_and_ordered
  have hreachable : engine.Reachable :=
    Layered.Reachable.after (.opened _ (Layered.result_ofStore (.inl rfl))) script
  -- ten is written before nine, and listed after it
  have hdump : Layered.engine.dump.result engine = .ok entries := by decide +kernel
  have hrun : (Workload.run counters config).result engine =
      .ok (.ok ⟨11, 0, (List.range 11).map fun index => (storageKey (.ofNat index), 1)⟩) := by
    decide +kernel
  exact ⟨by decide, by decide, hordered 9 10 (by decide) (by decide), hreachable, hdump,
    hdumps engine entries hreachable hdump, _, hrun, rfl, hreports counters config engine _ hrun⟩

/-- The bound on the indexes is needed: with seventeen digits the smallest index comes before the
largest one with sixteen. -/
example : storageKey 10000000000000000 < storageKey 9999999999999999 := by decide

end LazyTally
