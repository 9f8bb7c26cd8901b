import LazyTally.Operator.Basic

/-!
# Operators that take one operand at a time

A pairwise operator knows one step: to combine what exists with one operand.
Full and partial merges follow from it by folding.

## Main definitions

* `Pairwise` — an operator given by its step.
* `Pairwise.fold` — the step over a list of operands.
* `Pairwise.toOperator` — the operator that an engine can use.
-/

namespace LazyTally

/-- An operator given by its combination of what exists with one operand. -/
structure Pairwise where
  /-- The identity that a store records. -/
  name : String
  /-- Combines the existing value, if any, with an operand.  No answer means that
  the merge failed. -/
  merge (key : Bytes) (existing : Option Bytes) (operand : Bytes) :
    Traced Operator.Event (Option Bytes)

namespace Pairwise

/-- Combines operands one after the other, oldest first; the first failure ends
the fold.  Without operands the existing value is the result. -/
def fold {m : Type → Type} [Monad m] (merge : Option Bytes → Bytes → m (Option Bytes)) :
    Option Bytes → List Bytes → m (Option Bytes)
  | existing, [] => pure existing
  | existing, operand :: rest => do
      match ← merge existing operand with
      | none => pure none
      | some merged => fold merge (some merged) rest

/-- The operator that folds the step. -/
def toOperator (pairwise : Pairwise) : Operator where
  name := pairwise.name
  fullMerge key existing operands := fold (pairwise.merge key) existing operands
  partialMerge key left right := pairwise.merge key (some left) right

end Pairwise
end LazyTally
