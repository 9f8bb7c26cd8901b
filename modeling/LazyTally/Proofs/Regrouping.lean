import Mathlib.Algebra.BigOperators.Group.List.Basic
import LazyTally.Proofs.Resolved

/-!
# Operands in other groups and another order

Before operands are merged into a value some of them may already have been merged with their
neighbours, in lists or in pairs, and what came of it may have been merged again.  Operators on
counters do not let anyone see this, nor the order of the operands, and they never refuse such a
merge.  Malformed operands make no difference: wherever there is something to add them to, they
count as zero, and an operand that is alone stays alone.

## Main definitions

* `Operator.Regroups` — operands in another order, some merged with their neighbours.

## Main results

* `OperatorKind.value_fullMerge` — a full merge gives the closed form.
* `OperatorKind.resolved_perm`, `OperatorKind.resolved_regrouped` — order and groups do not
  matter to it.
* `OperatorKind.fullMerge_regrouped` — nor to a full merge.
-/

namespace LazyTally

open Counter (encode)

/-- Operands in another order, of which neighbours were merged, any number of times. -/
inductive Operator.Regroups (op : Operator) (key : Bytes) (operands : List Bytes) :
    List Bytes → Prop
  /-- Nothing was done. -/
  | refl : Regroups op key operands operands
  /-- The operands were put in another order. -/
  | permuted {others permuted : List Bytes} (h : Regroups op key operands others)
      (hperm : others.Perm permuted) : Regroups op key operands permuted
  /-- Two neighbours were merged. -/
  | pair {before after : List Bytes} {left right merged : Bytes}
      (h : Regroups op key operands (before ++ left :: right :: after))
      (hmerged : (op.partialMerge key left right).value = some merged) :
      Regroups op key operands (before ++ merged :: after)
  /-- A list of neighbours was merged. -/
  | list {before segment after : List Bytes} {merged : Bytes}
      (h : Regroups op key operands (before ++ segment ++ after)) (hne : segment ≠ [])
      (hmerged : (op.partialMergeAll key segment).value = some merged) :
      Regroups op key operands (before ++ merged :: after)

/-- Something is left of operands, however they are merged. -/
theorem Operator.Regroups.ne_nil {op : Operator} {key : Bytes} {operands others : List Bytes}
    (h : op.Regroups key operands others) (hne : operands ≠ []) : others ≠ [] := by
  induction h with
  | refl => exact hne
  | permuted h hperm ih => exact fun hnil => ih (List.perm_nil.mp (hnil ▸ hperm))
  | pair h hmerged ih => simp
  | list h hsegment hmerged ih => simp

theorem Counter.total_perm {values others : List Bytes} (h : values.Perm others) :
    total values = total others := (h.map count).sum_eq

namespace OperatorKind

variable {kind : OperatorKind} {key : Bytes} {existing : Option Bytes}
  {operands others : List Bytes}

/-- Where there is something to add to, operands resolve to the sum of all. -/
theorem resolved_eq_total (kind : OperatorKind) (hne : operands ≠ [])
    (h : existing.isSome ∨ 2 ≤ operands.length) :
    kind.resolved existing operands =
      some (encode (Counter.total (existing.toList ++ operands))) := by
  rcases operands with _ | ⟨first, _ | ⟨second, rest⟩⟩
  · exact absurd rfl hne
  · rcases h with hsome | hlong
    · obtain ⟨value, rfl⟩ := Option.isSome_iff_exists.mp hsome
      exact kind.resolved_some value first []
    · simp at hlong
  · cases existing <;> rfl

/-- The order of operands does not matter. -/
theorem resolved_perm (kind : OperatorKind) (existing : Option Bytes) (h : operands.Perm others) :
    kind.resolved existing operands = kind.resolved existing others := by
  by_cases hlong : 2 ≤ operands.length
  · have hlong' : 2 ≤ others.length := h.length_eq ▸ hlong
    have htotal := Counter.total_perm (h.append_left existing.toList)
    have hne : operands ≠ [] := List.ne_nil_of_length_pos (by omega)
    have hne' : others ≠ [] := List.ne_nil_of_length_pos (by omega)
    rw [kind.resolved_eq_total hne (.inr hlong), kind.resolved_eq_total hne' (.inr hlong'), htotal]
  · -- fewer than two operands have only one order
    rcases operands with _ | ⟨first, _ | ⟨second, rest⟩⟩
    · rw [List.nil_perm.mp h]
    · rw [List.singleton_perm.mp h]
    · simp at hlong

/-- A full merge gives the closed form. -/
theorem value_fullMerge (kind : OperatorKind) (key : Bytes) (existing : Option Bytes)
    (hne : operands ≠ []) :
    (kind.operator.fullMerge key existing operands).value = kind.resolved existing operands := by
  obtain ⟨value, hvalue⟩ := kind.total key existing operands hne
  have hfull := (kind.respects_stepwise key).full hne hvalue
  have hfold := kind.foldl_stepwise key existing operands
  rw [hvalue, ← hfold]
  exact hfull

/-- What is merged of operands beforehand does not matter. -/
theorem resolved_regrouped (h : kind.operator.Regroups key operands others)
    (existing : Option Bytes) :
    kind.resolved existing others = kind.resolved existing operands := by
  have hrespects := kind.respects_stepwise key
  induction h with
  | refl => rfl
  | permuted h hperm ih => rw [← ih, kind.resolved_perm existing hperm]
  | pair h hmerged ih =>
    rw [← ih, ← kind.foldl_stepwise key, ← kind.foldl_stepwise key, List.foldl_append,
      List.foldl_append, List.foldl_cons, List.foldl_cons, List.foldl_cons,
      hrespects.pair hmerged]
  | list h hne hmerged ih =>
    rw [← ih, ← kind.foldl_stepwise key, ← kind.foldl_stepwise key, List.foldl_append,
      List.foldl_append, List.foldl_append, List.foldl_cons, hrespects.list hne hmerged]

/-- Operands may be taken in any order and merged beforehand in pairs and lists of neighbours, to
any depth; no such merge fails, and a full merge of what is left gives the value that the operands
give as they are.  If there is a value below, or another operand, this is the stored sum of all
inputs, in which malformed ones count as zero. -/
theorem fullMerge_regrouped (kind : OperatorKind) (key : Bytes) (existing : Option Bytes)
    (hne : operands ≠ []) (h : kind.operator.Regroups key operands others) :
    (∀ left right, ∃ merged, (kind.operator.partialMerge key left right).value = some merged) ∧
      (∀ segment, segment ≠ [] →
        ∃ merged, (kind.operator.partialMergeAll key segment).value = some merged) ∧
      (∃ value, (kind.operator.fullMerge key existing operands).value = some value ∧
        (kind.operator.fullMerge key existing others).value = some value) ∧
      (existing.isSome ∨ 2 ≤ operands.length →
        (kind.operator.fullMerge key existing others).value =
          some (encode (Counter.total (existing.toList ++ operands)))) := by
  -- both lists resolve to the same value, whatever the grouping
  have hothers := kind.value_fullMerge key existing (h.ne_nil hne)
  rw [resolved_regrouped h existing] at hothers
  refine ⟨kind.exists_partialMerge key, fun segment => kind.exists_partialMergeAll key, ?_, ?_⟩
  · obtain ⟨value, hvalue⟩ := kind.total key existing operands hne
    refine ⟨value, hvalue, ?_⟩
    rw [hothers, ← kind.value_fullMerge key existing hne, hvalue]
  · intro hsum
    rw [hothers, kind.resolved_eq_total hne hsum]

/-- Of four operands over nothing, two of them malformed, the last two are put in front, three are
merged as a list, and what comes of them is merged with the one that is left. -/
theorem fullMerge_regrouped_nested :
    let operands : List Bytes := [[5], encode 3, [], encode 18446744073709551615]
    operands ≠ [] ∧
      associative.operator.Regroups [1] operands [encode 2] ∧
      (associative.operator.fullMerge [1] none operands).value = some (encode 2) ∧
      (associative.operator.fullMerge [1] none [encode 2]).value = some (encode 2) := by
  intro operands
  have hne : operands ≠ [] := List.cons_ne_nil _ _
  -- three of the four operands are merged first, and then the result with the fourth
  have hperm : operands.Perm [[], encode 18446744073709551615, [5], encode 3] := by decide
  have hstart : associative.operator.Regroups [1] operands
      ([] ++ [[], encode 18446744073709551615, [5]] ++ [encode 3]) := .permuted .refl hperm
  have hlist : associative.operator.Regroups [1] operands
      ([] ++ encode 18446744073709551615 :: encode 3 :: []) :=
    .list hstart (List.cons_ne_nil _ _) (by decide)
  have hpair : associative.operator.Regroups [1] operands ([] ++ encode 2 :: []) :=
    .pair hlist (by decide)
  obtain ⟨-, -, ⟨value, hvalue, hother⟩, htotal⟩ :=
    fullMerge_regrouped associative [1] none hne hpair
  have hsum := htotal (.inr (by decide))
  exact ⟨hne, hpair, hvalue.trans (hother.symm.trans hsum), hsum⟩

end OperatorKind
end LazyTally
