import Mathlib.Data.UInt
import LazyTally.Operator.Counting
import LazyTally.Proofs.Reading

/-!
# Laws of merge operators

An engine may merge operands early, late, or a few at a time.  This goes unnoticed by
a reading that the operator *respects*: a full merge is seen as its operands one after
the other, and an operand that stands for others is seen as those others, whatever
lies under them.

## Main definitions

* `Operator.Total` — a full merge of operands gives a value.
* `Operator.Respects` — the reading cannot tell when the operator merges.
* `Operator.stepwise` — the value that the operator gives to one operand at a time.
* `Counter.count` — the counter that a byte string stands for inside a merge.

## Main results

* `OperatorKind.total` — neither operator on counters fails.
* `OperatorKind.exists_partialMerge`, `OperatorKind.exists_partialMergeAll` — and neither keeps
  operands that it could merge.
* `OperatorKind.respects_stepwise` — both give the values that they would give one
  operand at a time.
-/

namespace LazyTally

namespace Operator

/-- A full merge of operands gives a value. -/
def Total (operator : Operator) : Prop :=
  ∀ key existing operands, operands ≠ [] →
    ∃ value, (operator.fullMerge key existing operands).value = some value

/-- The reading cannot tell when the operator merges. -/
structure Respects {α : Type} (operator : Operator) (key : Bytes) (reading : Reading α) :
    Prop where
  /-- A merged value is seen as the operands one after the other. -/
  full : ∀ {existing operands value}, operands ≠ [] →
    (operator.fullMerge key existing operands).value = some value →
    reading.value (some value) = operands.foldl reading.merge (reading.value existing)
  /-- An operand that stands for two is seen as the two. -/
  pair : ∀ {left right merged}, (operator.partialMerge key left right).value = some merged →
    ∀ seen, reading.merge seen merged = reading.merge (reading.merge seen left) right
  /-- An operand that stands for a list is seen as the list. -/
  list : ∀ {operands merged}, operands ≠ [] →
    (operator.partialMergeAll key operands).value = some merged →
    ∀ seen, reading.merge seen merged = operands.foldl reading.merge seen

/-- The value that the operator gives to one operand at a time. -/
def stepwise (operator : Operator) (key : Bytes) : Reading (Option Bytes) where
  value bytes := bytes
  merge existing operand := (operator.fullMerge key existing [operand]).value

/-! ### Lists from pairs -/

/-- If pairs go unnoticed, so do the lists that are merged pair by pair. -/
theorem merge_combineOnto {α : Type} {combine : Bytes → Bytes → Traced Event (Option Bytes)}
    {reading : Reading α}
    (hpair : ∀ {left right merged}, (combine left right).value = some merged →
      ∀ seen, reading.merge seen merged = reading.merge (reading.merge seen left) right) :
    ∀ {operands : List Bytes} {first merged : Bytes},
      (combineOnto combine first operands).value = some merged →
      ∀ seen, reading.merge seen merged =
        operands.foldl reading.merge (reading.merge seen first) := by
  intro operands
  induction operands with
  | nil =>
    intro first merged h seen
    obtain rfl : first = merged := Option.some.inj h
    rfl
  | cons operand rest ih =>
    intro first merged h seen
    rw [combineOnto, Traced.value_bind] at h
    cases hstep : (combine first operand).value with
    | none => rw [hstep] at h; exact nomatch h
    | some joined =>
      -- the two first operands acted like their merge, which takes their place
      rw [hstep] at h
      rw [List.foldl_cons, ih h seen, hpair hstep seen]

theorem merge_combineAll {α : Type} {combine : Bytes → Bytes → Traced Event (Option Bytes)}
    {reading : Reading α}
    (hpair : ∀ {left right merged}, (combine left right).value = some merged →
      ∀ seen, reading.merge seen merged = reading.merge (reading.merge seen left) right)
    {operands : List Bytes} {merged : Bytes}
    (h : (combineAll combine operands).value = some merged) (seen : α) :
    reading.merge seen merged = operands.foldl reading.merge seen := by
  cases operands with
  | nil => exact nomatch h
  | cons first rest => exact merge_combineOnto hpair h seen

/-- If every pair merges, so does every list. -/
theorem exists_combineOnto {combine : Bytes → Bytes → Traced Event (Option Bytes)}
    (hpair : ∀ left right, ∃ merged, (combine left right).value = some merged) (first : Bytes)
    (operands : List Bytes) :
    ∃ merged, (combineOnto combine first operands).value = some merged := by
  induction operands generalizing first with
  | nil => exact ⟨first, rfl⟩
  | cons operand rest ih =>
    obtain ⟨joined, hjoined⟩ := hpair first operand
    rw [combineOnto, Traced.value_bind, hjoined]
    exact ih joined

end Operator

/-! ### Counters inside a merge -/

namespace Counter

/-- The counter that a byte string stands for inside a merge; malformed bytes stand
for zero. -/
def count (bytes : Bytes) : UInt64 := (decode? bytes).getD 0

/-- The sum of what byte strings stand for. -/
def total (values : List Bytes) : UInt64 := (values.map count).sum

@[simp] theorem count_encode (value : UInt64) : count (encode value) = value := by
  rw [count, decode?_encode]
  rfl

@[simp] theorem total_nil : total [] = 0 := rfl

@[simp] theorem total_cons (value : Bytes) (values : List Bytes) :
    total (value :: values) = count value + total values := rfl

theorem total_singleton (value : Bytes) : total [value] = count value :=
  UInt64.add_zero (count value)

theorem total_append (values others : List Bytes) :
    total (values ++ others) = total values + total others := by
  induction values with
  | nil => rw [List.nil_append, total_nil, UInt64.zero_add]
  | cons value rest ih => rw [List.cons_append, total_cons, total_cons, ih, UInt64.add_assoc]

end Counter

namespace Operator

open Counter (count total encode count_encode total_nil total_cons total_append)

@[simp] theorem value_countOrZero (key bytes : Bytes) :
    (countOrZero key bytes).value = count bytes := by
  rw [countOrZero, count]
  cases Counter.decode? bytes <;> rfl

/-! ### Addition -/

/-- The sum of an operand and the existing value; without one, the operand. -/
def plus (existing : Option Bytes) (operand : Bytes) : Bytes :=
  match existing with
  | none => operand
  | some existing => encode (count existing + count operand)

theorem value_addition_merge (key : Bytes) (existing : Option Bytes) (operand : Bytes) :
    (addition.merge key existing operand).value = some (plus existing operand) := by
  cases existing with
  | none => rfl
  | some existing =>
    show some (encode ((countOrZero key existing).value + (countOrZero key operand).value)) = _
    rw [value_countOrZero, value_countOrZero]
    rfl

theorem merge_stepwise_addition (key : Bytes) (existing : Option Bytes) (operand : Bytes) :
    (addition.toOperator.stepwise key).merge existing operand = some (plus existing operand) := by
  show (Pairwise.fold (addition.merge key) existing [operand]).value = _
  rw [Pairwise.fold, Traced.value_bind, value_addition_merge]
  rfl

/-- A fold of additions never stops early. -/
theorem value_addition_fullMerge (key : Bytes) (existing : Option Bytes)
    (operands : List Bytes) :
    (addition.toOperator.fullMerge key existing operands).value =
      operands.foldl (addition.toOperator.stepwise key).merge existing := by
  show (Pairwise.fold (addition.merge key) existing operands).value = _
  induction operands generalizing existing with
  | nil => rfl
  | cons operand rest ih =>
    rw [Pairwise.fold, Traced.value_bind, value_addition_merge, List.foldl_cons,
      merge_stepwise_addition]
    exact ih (some (plus existing operand))

theorem total_addition : addition.toOperator.Total := by
  intro key existing operands hne
  obtain ⟨operand, rest, rfl⟩ := List.exists_cons_of_ne_nil hne
  rw [value_addition_fullMerge, List.foldl_cons, merge_stepwise_addition]
  -- from the first sum on there is always a value
  generalize plus existing operand = sum
  clear hne
  induction rest generalizing sum with
  | nil => exact ⟨sum, rfl⟩
  | cons operand rest ih =>
    rw [List.foldl_cons, merge_stepwise_addition]
    exact ih (plus (some sum) operand)

/-- To add the sum of two operands is to add one and then the other. -/
theorem plus_plus (existing : Option Bytes) (left right : Bytes) :
    plus existing (plus (some left) right) = plus (some (plus existing left)) right := by
  cases existing with
  | none => rfl
  | some existing => simp only [plus, count_encode, UInt64.add_assoc]

theorem respects_stepwise_addition (key : Bytes) :
    addition.toOperator.Respects key (addition.toOperator.stepwise key) := by
  have hpair : ∀ {left right merged},
      (addition.toOperator.partialMerge key left right).value = some merged →
      ∀ seen, (addition.toOperator.stepwise key).merge seen merged =
        (addition.toOperator.stepwise key).merge
          ((addition.toOperator.stepwise key).merge seen left) right := by
    intro left right merged h seen
    obtain rfl : plus (some left) right = merged :=
      Option.some.inj ((value_addition_merge key (some left) right).symm.trans h)
    rw [merge_stepwise_addition, merge_stepwise_addition, merge_stepwise_addition, plus_plus]
  refine ⟨?_, hpair, fun _ h seen => merge_combineAll hpair h seen⟩
  intro existing operands value _ h
  exact h.symm.trans (value_addition_fullMerge key existing operands)

/-! ### Summation -/

theorem value_sumOnto (key : Bytes) (sum : UInt64) (values : List Bytes) :
    (sumOnto key sum values).value = sum + total values := by
  induction values generalizing sum with
  | nil => rw [total_nil, UInt64.add_zero]; rfl
  | cons value rest ih =>
    rw [sumOnto, Traced.value_bind, ih, value_countOrZero, total_cons, UInt64.add_assoc]

theorem value_summation_fullMerge (key : Bytes) (existing : Option Bytes)
    (operands : List Bytes) :
    (summation.fullMerge key existing operands).value =
      some (encode (total (existing.toList ++ operands))) := by
  show some (encode (sumOnto key 0 (existing.toList ++ operands)).value) = _
  rw [value_sumOnto, UInt64.zero_add]

theorem value_summation_partialMerge (key left right : Bytes) :
    (summation.partialMerge key left right).value = some (encode (total [left, right])) := by
  show some (encode (sumOnto key 0 [left, right]).value) = _
  rw [value_sumOnto, UInt64.zero_add]

theorem value_summation_partialMergeAll (key : Bytes) (operands : List Bytes) :
    (summation.partialMergeAll key operands).value = some (encode (total operands)) := by
  show some (encode (sumOnto key 0 operands).value) = _
  rw [value_sumOnto, UInt64.zero_add]

theorem total_summation : summation.Total :=
  fun key existing operands _ => ⟨_, value_summation_fullMerge key existing operands⟩

theorem foldl_stepwise_summation (key : Bytes) (existing : Option Bytes) (operand : Bytes)
    (rest : List Bytes) :
    (operand :: rest).foldl (summation.stepwise key).merge existing =
      some (encode (total (existing.toList ++ operand :: rest))) := by
  induction rest generalizing existing operand with
  | nil => exact value_summation_fullMerge key existing [operand]
  | cons next rest ih =>
    have hstep : (summation.stepwise key).merge existing operand =
        some (encode (total (existing.toList ++ [operand]))) :=
      value_summation_fullMerge key existing [operand]
    rw [List.foldl_cons, hstep, ih, Option.toList_some, List.singleton_append, total_cons,
      count_encode, ← total_append, List.append_assoc, List.singleton_append]

/-- To add the sum of operands is to add them one after the other. -/
theorem merge_stepwise_summation_total (key : Bytes) (existing : Option Bytes)
    {operands : List Bytes} (hne : operands ≠ []) :
    (summation.stepwise key).merge existing (encode (total operands)) =
      operands.foldl (summation.stepwise key).merge existing := by
  obtain ⟨operand, rest, rfl⟩ := List.exists_cons_of_ne_nil hne
  rw [foldl_stepwise_summation, total_append]
  have hstep := value_summation_fullMerge key existing [encode (total (operand :: rest))]
  rw [total_append, Counter.total_singleton, count_encode] at hstep
  exact hstep

theorem respects_stepwise_summation (key : Bytes) :
    summation.Respects key (summation.stepwise key) := by
  refine ⟨?_, ?_, ?_⟩
  · intro existing operands value hne h
    obtain ⟨operand, rest, rfl⟩ := List.exists_cons_of_ne_nil hne
    exact h.symm.trans ((value_summation_fullMerge key existing _).trans
      (foldl_stepwise_summation key existing operand rest).symm)
  · intro left right merged h seen
    obtain rfl := Option.some.inj ((value_summation_partialMerge key left right).symm.trans h)
    exact merge_stepwise_summation_total key seen (List.cons_ne_nil left [right])
  · intro operands merged hne h seen
    obtain rfl := Option.some.inj ((value_summation_partialMergeAll key operands).symm.trans h)
    exact merge_stepwise_summation_total key seen hne

end Operator

/-! ### Both operators on counters -/

namespace OperatorKind

theorem total (kind : OperatorKind) : kind.operator.Total := by
  cases kind with
  | associative => exact Operator.total_addition
  | fullPartial => exact Operator.total_summation

/-- Both merge any pair of operands. -/
theorem exists_partialMerge (kind : OperatorKind) (key left right : Bytes) :
    ∃ merged, (kind.operator.partialMerge key left right).value = some merged := by
  cases kind with
  | associative => exact ⟨_, Operator.value_addition_merge key (some left) right⟩
  | fullPartial => exact ⟨_, Operator.value_summation_partialMerge key left right⟩

/-- Both merge any list of operands, unless there are none. -/
theorem exists_partialMergeAll (kind : OperatorKind) (key : Bytes) {operands : List Bytes}
    (hne : operands ≠ []) :
    ∃ merged, (kind.operator.partialMergeAll key operands).value = some merged := by
  cases kind with
  | associative =>
    obtain ⟨first, rest, rfl⟩ := List.exists_cons_of_ne_nil hne
    exact Operator.exists_combineOnto (exists_partialMerge .associative key) first rest
  | fullPartial => exact ⟨_, Operator.value_summation_partialMergeAll key operands⟩

/-- When operands are merged, and in which groups, does not change the value that they
would give one at a time. -/
theorem respects_stepwise (kind : OperatorKind) (key : Bytes) :
    kind.operator.Respects key (kind.operator.stepwise key) := by
  cases kind with
  | associative => exact Operator.respects_stepwise_addition key
  | fullPartial => exact Operator.respects_stepwise_summation key

/-- On stored counters both add, and an absent counter counts as zero. -/
theorem merge_stepwise_encode (kind : OperatorKind) (key : Bytes) (stored : Option UInt64)
    (delta : UInt64) :
    (kind.operator.stepwise key).merge (stored.map Counter.encode) (Counter.encode delta) =
      some (Counter.encode (stored.getD 0 + delta)) := by
  cases kind with
  | associative =>
    refine (Operator.merge_stepwise_addition key _ _).trans ?_
    -- over nothing the operand stays as it is, over a counter both are read
    cases stored with
    | none => rw [Option.map_none, Operator.plus, Option.getD_none, UInt64.zero_add]
    | some value =>
      rw [Option.map_some, Operator.plus, Counter.count_encode, Counter.count_encode]
      rfl
  | fullPartial =>
    refine (Operator.value_summation_fullMerge key _ _).trans ?_
    rw [Counter.total_append, Counter.total_singleton, Counter.count_encode]
    cases stored with
    | none => rfl
    | some value =>
      rw [Option.map_some, Option.toList_some, Counter.total_singleton, Counter.count_encode]
      rfl

end OperatorKind
end LazyTally
