import LazyTally.Operator.Concatenation
import LazyTally.Proofs.Malformed

/-!
# Operators that fold their step

An operator that takes one operand at a time may be any function, and any of its steps may fail.
Still its merges fit together.  A full merge can stop anywhere between two operands and go on from
what it has, and a partial merge of a list is a full merge that starts from the first operand.  If
the step is moreover associative wherever there is something to add to, then a list of neighbours
that merges to one operand can be replaced by it: both merges give the same, and both fail if one
does.

## Main definitions

* `Pairwise.Associative` — the step is associative on present values.
* `Pairwise.oneByOne` — what exists after each operand, or nothing after a failure.

## Main results

* `Pairwise.fold_append` — a fold goes on from where it stopped.
* `Pairwise.Associative.merge_eq_foldl` — an operand that stands for others is seen as those others.
* `Pairwise.merges_fit` — what full merges and partial merges of lists have to do with each other.
* `Operator.associative_addition` — the addition of counters is such a step.
-/

namespace LazyTally
namespace Pairwise

variable (pairwise : Pairwise) (key : Bytes)

/-- On present values the step is associative.  Where merging in one order fails, so does merging
in the other. -/
def Associative : Prop :=
  ∀ first second third : Bytes,
    ((pairwise.merge key (some first) second).value.bind fun merged =>
        (pairwise.merge key (some merged) third).value) =
      (pairwise.merge key (some second) third).value.bind fun merged =>
        (pairwise.merge key (some first) merged).value

/-- What exists after each operand.  After a failure nothing does, and nothing comes of further
operands. -/
def oneByOne : Reading (Option Bytes) where
  value existing := existing
  merge existing operand :=
    existing.bind fun value => (pairwise.merge key (some value) operand).value

/-! ### Folds in parts -/

/-- A fold over a present value goes on from where it stopped. -/
theorem fold_some_append (merge : Option Bytes → Bytes → Traced Operator.Event (Option Bytes))
    (value : Bytes) (operands others : List Bytes) :
    fold merge (some value) (operands ++ others) =
      fold merge (some value) operands >>= fun
        | none => pure none
        | some merged => fold merge (some merged) others := by
  induction operands generalizing value with
  | nil => rfl
  | cons operand rest ih =>
    rw [List.cons_append, fold, fold, bind_assoc]
    congr 1
    funext merged
    -- a failure ends the fold before the second part
    cases merged with
    | none => rfl
    | some merged => exact ih merged

/-- A fold of at least one operand goes on from where it stopped. -/
theorem fold_append (merge : Option Bytes → Bytes → Traced Operator.Event (Option Bytes))
    (existing : Option Bytes) {operands : List Bytes} (hne : operands ≠ [])
    (others : List Bytes) :
    fold merge existing (operands ++ others) =
      fold merge existing operands >>= fun
        | none => pure none
        | some merged => fold merge (some merged) others := by
  obtain ⟨operand, rest, rfl⟩ := List.exists_cons_of_ne_nil hne
  rw [List.cons_append, fold, fold, bind_assoc]
  congr 1
  funext merged
  cases merged with
  | none => rfl
  | some merged => exact fold_some_append merge merged rest others

variable {pairwise key}

theorem foldl_oneByOne_none (operands : List Bytes) :
    operands.foldl (pairwise.oneByOne key).merge none = none := by
  induction operands with
  | nil => rfl
  | cons operand rest ih => exact ih

/-- Over a present value, a full merge gives what is seen of its operands one by one. -/
theorem value_fullMerge_some (value : Bytes) (operands : List Bytes) :
    (pairwise.toOperator.fullMerge key (some value) operands).value =
      operands.foldl (pairwise.oneByOne key).merge (some value) := by
  show (fold (pairwise.merge key) (some value) operands).value = _
  induction operands generalizing value with
  | nil => rfl
  | cons operand rest ih =>
    have hstep : (pairwise.oneByOne key).merge (some value) operand =
        (pairwise.merge key (some value) operand).value := rfl
    rw [fold, Traced.value_bind, List.foldl_cons, hstep]
    cases (pairwise.merge key (some value) operand).value with
    | none => exact (foldl_oneByOne_none rest).symm
    | some merged => exact ih merged

/-! ### Segments that merge to one operand -/

/-- An operand that stands for two is seen as the two. -/
theorem Associative.merge_eq (h : pairwise.Associative key) {left right merged : Bytes}
    (hmerged : (pairwise.toOperator.partialMerge key left right).value = some merged)
    (existing : Option Bytes) :
    (pairwise.oneByOne key).merge existing merged =
      (pairwise.oneByOne key).merge ((pairwise.oneByOne key).merge existing left) right := by
  cases existing with
  | none => rfl
  | some value =>
    have hpair : (pairwise.merge key (some left) right).value = some merged := hmerged
    have hlaw := h value left right
    rw [hpair] at hlaw
    exact hlaw.symm

/-- An operand that stands for a list is seen as the list. -/
theorem Associative.merge_eq_foldl (h : pairwise.Associative key) {segment : List Bytes}
    {merged : Bytes}
    (hmerged : (pairwise.toOperator.partialMergeAll key segment).value = some merged)
    (existing : Option Bytes) :
    (pairwise.oneByOne key).merge existing merged =
      segment.foldl (pairwise.oneByOne key).merge existing :=
  Operator.merge_combineAll h.merge_eq hmerged existing

/-- The merges of an operator that takes one operand at a time fit together, whatever its step is
and wherever it fails.  A full merge of at least one operand goes on from where it stopped, and a
partial merge of a list is a full merge over its first operand.  If the step is associative on
present values, then over a present value a list of neighbours that merges to one operand can be
replaced by that operand. -/
theorem merges_fit (pairwise : Pairwise) (key : Bytes) :
    (∀ existing operands others, operands ≠ [] →
      (pairwise.toOperator.fullMerge key existing (operands ++ others)).value =
        (pairwise.toOperator.fullMerge key existing operands).value.bind fun merged =>
          (pairwise.toOperator.fullMerge key (some merged) others).value) ∧
    (∀ first rest,
      pairwise.toOperator.partialMergeAll key (first :: rest) =
        pairwise.toOperator.fullMerge key (some first) rest) ∧
    (pairwise.Associative key →
      ∀ existing before segment after merged,
        (pairwise.toOperator.partialMergeAll key segment).value = some merged →
        (pairwise.toOperator.fullMerge key (some existing) (before ++ segment ++ after)).value =
          (pairwise.toOperator.fullMerge key (some existing)
            (before ++ [merged] ++ after)).value) := by
  refine ⟨?_, Operator.combineOnto_eq_fold key pairwise, ?_⟩
  · -- the fold over the first part may fail, and then the second part is not merged
    intro existing operands others hne
    show (fold (pairwise.merge key) existing (operands ++ others)).value = _
    rw [fold_append _ existing hne, Traced.value_bind]
    show _ = (fold (pairwise.merge key) existing operands).value.bind _
    cases (fold (pairwise.merge key) existing operands).value <;> rfl
  · intro hassoc existing before segment after merged hmerged
    -- a segment that merges to an operand acts on every value as that operand does
    have hsegment := hassoc.merge_eq_foldl hmerged
      (before.foldl (pairwise.oneByOne key).merge (some existing))
    rw [value_fullMerge_some, value_fullMerge_some, List.foldl_append, List.foldl_append,
      List.foldl_append, List.foldl_append, List.foldl_cons, List.foldl_nil, hsegment]

end Pairwise

/-! ### Steps that are associative, and one that is not -/

/-- The addition of counters is associative on present values. -/
theorem Operator.associative_addition (key : Bytes) : Pairwise.Associative addition key := by
  intro first second third
  rw [value_addition_merge, value_addition_merge, Option.bind_some, Option.bind_some,
    value_addition_merge, value_addition_merge]
  exact congrArg some (plus_plus (some first) second third).symm

/-- A step that refuses the single byte 255 refuses it before, but not after, it was put together
with something else. -/
example : ¬Pairwise.Associative Operator.concatenation [] := by
  intro h
  have hlaw := h [1] [255] [2]
  exact absurd hlaw (by decide)

/-- A malformed operand among others: a segment that holds it is replaced by its sum, and the full
merge stops after it and goes on. -/
theorem Pairwise.merges_fit_malformed :
    let addition := Operator.addition
    let two := Counter.encode 2
    let five := Counter.encode 5
    let last := Counter.encode 18446744073709551615
    [five, [1, 2]] ≠ [] ∧ addition.Associative [107] ∧
      (addition.toOperator.partialMergeAll [107] [five, [1, 2], last]).value =
        some (Counter.encode 4) ∧
      (addition.toOperator.fullMerge [107] none ([five, [1, 2]] ++ [last])).value =
        (addition.toOperator.fullMerge [107] (some five) [last]).value ∧
      (addition.toOperator.fullMerge [107] (some two)
          ([[3]] ++ [five, [1, 2], last] ++ [two])).value =
        (addition.toOperator.fullMerge [107] (some two)
          ([[3]] ++ [Counter.encode 4] ++ [two])).value := by
  intro addition two five last
  have hne : [five, [1, 2]] ≠ [] := List.cons_ne_nil _ _
  have hassoc := Operator.associative_addition [107]
  have hsegment : (addition.toOperator.partialMergeAll [107] [five, [1, 2], last]).value =
      some (Counter.encode 4) := by decide
  obtain ⟨hparts, -, hreplaced⟩ := Pairwise.merges_fit addition [107]
  refine ⟨hne, hassoc, hsegment, ?_, ?_⟩
  · exact hparts none [five, [1, 2]] [last] hne
  · exact hreplaced hassoc two [[3]] _ [two] _ hsegment

end LazyTally
