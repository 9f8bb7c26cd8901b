import Mathlib.Data.List.Induction
import LazyTally.Proofs.Resolved
import LazyTally.Proofs.Script

/-!
# One kind of operator for the other

Two stores take the same writes, one under each kind of operator.  However their writes are
grouped, and wherever they flush, compact, open again or reach their limits, both read the
same on every key, with one exception: a single malformed operand that stands on nothing.
One kind reads its bytes, and the other the counter zero.

## Main definitions

* `Write.Alone` — an operand was merged into a key, and there is nothing else.

## Main results

* `Write.alone_iff` — the chain of the key is that operand over no value.
* `OperatorKind.resolved_eq_iff` — when the two kinds resolve operands to the same.
* `Interchange.get_eq_iff_not_alone` — when two stores read the same.
-/

namespace LazyTally

/-! ### Operands that stand alone -/

/-- Nothing is left of a history that is empty or ends with a delete. -/
theorem Chain.ofRecords_empty_iff {records : List Record} :
    ((ofRecords records).value? = none ∧ (ofRecords records).operands = []) ↔
      ∀ record ∈ records.getLast?, record = .delete := by
  cases records using List.reverseRecOn with
  | nil => simp [value?]
  | append_singleton before last =>
    rw [ofRecords_concat]
    cases last <;> simp [value?, Base.value?]

namespace Write

/-- The operand was merged into the key after its last delete, or after none, and no other
operand was, and no value was put. -/
def Alone (writes : List Write) (key operand : Bytes) : Prop :=
  ∃ before, history writes key = before ++ [.merge operand] ∧
    ∀ record ∈ before.getLast?, record = .delete

theorem alone_iff {writes : List Write} {key operand : Bytes} :
    Alone writes key operand ↔
      (Chain.ofRecords (history writes key)).value? = none ∧
        (Chain.ofRecords (history writes key)).operands = [operand] := by
  unfold Alone
  generalize history writes key = records
  constructor
  · rintro ⟨before, rfl, hbefore⟩
    obtain ⟨hvalue, hoperands⟩ := Chain.ofRecords_empty_iff.mpr hbefore
    rw [Chain.ofRecords_concat]
    exact ⟨hvalue, congrArg (· ++ [operand]) hoperands⟩
  · rintro ⟨hvalue, hoperands⟩
    cases records using List.reverseRecOn with
    | nil => exact nomatch hoperands
    | append_singleton before last =>
      rw [Chain.ofRecords_concat] at hvalue hoperands
      -- the last record is the operand, since after a put or a delete there is none
      cases last with
      | put value => exact nomatch hoperands
      | delete => exact nomatch hoperands
      | merge newest =>
        have hoperands : (Chain.ofRecords before).operands ++ [newest] = [] ++ [operand] :=
          hoperands
        obtain ⟨hempty, hnewest⟩ := List.append_inj' hoperands rfl
        obtain rfl : newest = operand := List.singleton_inj.mp hnewest
        exact ⟨before, rfl, Chain.ofRecords_empty_iff.mp ⟨hvalue, hempty⟩⟩

end Write

/-! ### When the kinds differ -/

/-- Both kinds resolve operands to the same, unless a malformed operand is alone. -/
theorem OperatorKind.resolved_eq_iff {existing : Option Bytes} {operands : List Bytes} :
    associative.resolved existing operands = fullPartial.resolved existing operands ↔
      ¬(existing = none ∧ ∃ operand, operands = [operand] ∧ operand.length ≠ Counter.size) := by
  rcases existing with _ | value <;> rcases operands with _ | ⟨first, _ | ⟨second, rest⟩⟩
  case none.cons.nil =>
    show some first = some (Counter.encode (Counter.count first)) ↔ _
    rw [Option.some.injEq, eq_comm, Counter.encode_count_eq_iff]
    simp
  all_goals simp [resolved]

namespace Interchange

/-- Two scripts with the same writes, one under each kind of operator, read the same on a key
unless its writes leave a malformed operand alone; then one kind reads the operand as it is,
and the other a stored zero. -/
theorem get_eq_iff_not_alone {options others : Options} {script other : Script}
    (hkind : options.operator = some .associative) (hother : others.operator = some .fullPartial)
    (hkeeps : script.Keeps (some .associative)) (hkeeps' : other.Keeps (some .fullPartial))
    (hwrites : script.writes = other.writes) :
    ∃ pairwise listwise, script.run options = .ok pairwise ∧ other.run others = .ok listwise ∧
      ∀ key, ∃ value value', (Layered.engine.get key).result pairwise = .ok value ∧
        (Layered.engine.get key).result listwise = .ok value' ∧
        (value = value' ↔ ¬∃ operand, Write.Alone script.writes key operand ∧
          operand.length ≠ Counter.size) ∧
        ∀ operand, Write.Alone script.writes key operand → operand.length ≠ Counter.size →
          value = some operand ∧ value' = some (Counter.encode 0) := by
  obtain ⟨pairwise, hrun, hopen, hsees⟩ := Script.run_eq_ok (hkind ▸ hkeeps)
  obtain ⟨listwise, hrun', hopen', hsees'⟩ := Script.run_eq_ok (hother ▸ hkeeps')
  rw [hkind] at hopen hsees
  rw [hother] at hopen' hsees'
  refine ⟨pairwise, listwise, hrun, hrun', ?_⟩
  intro key
  -- both engines read what their kind resolves the chain of the same writes to
  have hget := hopen.result_get key
  have hget' := hopen'.result_get key
  rw [hsees (Resolution.respects_stepwise _), OperatorKind.meaning_stepwise] at hget
  rw [hsees' (Resolution.respects_stepwise _), OperatorKind.meaning_stepwise, ← hwrites] at hget'
  refine ⟨_, _, hget, hget', ?_, ?_⟩
  · rw [OperatorKind.resolved_eq_iff]
    simp only [Write.alone_iff, exists_and_left, and_assoc]
  · intro operand halone hsize
    obtain ⟨hvalue, hoperands⟩ := Write.alone_iff.mp halone
    rw [hvalue, hoperands]
    refine ⟨rfl, ?_⟩
    rw [← Counter.count_of_length_ne hsize]
    rfl

/-- A malformed operand is alone on one key, after a delete, and beside another operand on a
second key; the limits, batches and flushes of the two stores differ. -/
theorem get_eq_iff_not_alone_mixed :
    let options : Options := ⟨some .associative, 1, true⟩
    let others : Options := ⟨some .fullPartial, 0, true⟩
    let script : Script :=
      [.put [1] [7], .delete [1], .flush, .merge [1] [5], .merge [2] [6], .compact,
        .merge [2] (Counter.encode 3)]
    let other : Script := [.write script.writes, .reopen ⟨some .fullPartial, 1, true⟩, .flush]
    script.Keeps (some .associative) ∧ other.Keeps (some .fullPartial) ∧
      script.writes = other.writes ∧
      ∃ pairwise listwise, script.run options = .ok pairwise ∧ other.run others = .ok listwise ∧
        (Layered.engine.get [1]).result pairwise = .ok (some [5]) ∧
        (Layered.engine.get [1]).result listwise = .ok (some (Counter.encode 0)) ∧
        (Layered.engine.get [2]).result pairwise = (Layered.engine.get [2]).result listwise := by
  intro options others script other
  have hkind : options.operator = some .associative := rfl
  have hother : others.operator = some .fullPartial := rfl
  have hkeeps : script.Keeps (some .associative) := by decide
  have hkeeps' : other.Keeps (some .fullPartial) := by decide
  have hwrites : script.writes = other.writes := by decide
  obtain ⟨pairwise, listwise, hrun, hrun', hget⟩ :=
    get_eq_iff_not_alone hkind hother hkeeps hkeeps' hwrites
  refine ⟨hkeeps, hkeeps', hwrites, pairwise, listwise, hrun, hrun', ?_⟩
  obtain ⟨value, value', hvalue, hvalue', -, halone⟩ := hget [1]
  obtain ⟨rfl, rfl⟩ := halone [5] (Write.alone_iff.mpr (by decide)) (by decide)
  obtain ⟨both, both', hboth, hboth', hsame, -⟩ := hget [2]
  -- the second key has two operands, so neither is alone
  have htwo : (Chain.ofRecords (Write.history script.writes [2])).operands.length = 2 := by decide
  obtain rfl : both = both' := by
    refine hsame.mpr ?_
    rintro ⟨operand, halone, -⟩
    rw [(Write.alone_iff.mp halone).2] at htwo
    exact nomatch htwo
  exact ⟨hvalue, hvalue', hboth.trans hboth'.symm⟩

end Interchange
end LazyTally
