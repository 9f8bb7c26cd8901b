import LazyTally.Counter
import LazyTally.Operator.Pairwise

/-!
# Operators on counters

Two operators add counters, wrapping at 2^64.  Neither fails: an input that is no
counter is reported and counts as zero.  `addition` takes one operand at a time
and passes an operand through when there is nothing to add it to; `summation`
takes whole lists and always answers with a counter.

## Main definitions

* `countOrZero` — reads an input of a merge.
* `addition`, `summation` — the two operators.
-/

namespace LazyTally
namespace Operator

/-- Reads a counter; anything else is reported and counts as zero. -/
def countOrZero (key value : Bytes) : Traced Event UInt64 :=
  match Counter.decode? value with
  | some count => pure count
  | none => do
      report (.malformed key value.length)
      pure 0

/-- Adds one operand to the existing value.  Without one, the operand is the
result, whatever its length. -/
def addition : Pairwise where
  name := "UInt64AddOperator"
  merge key existing operand :=
    match existing with
    | none => do
        report (.adopted key operand)
        pure (some operand)
    | some existing => do
        let base ← countOrZero key existing
        let delta ← countOrZero key operand
        report (.added key base delta)
        pure (some (Counter.encode (base + delta)))

/-- The sum of the inputs on top of `total`. -/
def sumOnto (key : Bytes) : (total : UInt64) → List Bytes → Traced Event UInt64
  | total, [] => pure total
  | total, value :: rest => do
      let count ← countOrZero key value
      sumOnto key (total + count) rest

/-- Sums the existing value, if any, and all operands. -/
def summation : Operator where
  name := "CountBaseOriginalMergeOperator"
  fullMerge key existing operands := do
    let total ← sumOnto key 0 (existing.toList ++ operands)
    report (.fullSum key (existing.map List.length) operands.length total)
    pure (some (Counter.encode total))
  partialMerge key left right := do
    let total ← sumOnto key 0 [left, right]
    report (.pairSum key total)
    pure (some (Counter.encode total))
  partialMergeAll key operands := do
    let total ← sumOnto key 0 operands
    report (.listSum key operands.length total)
    pure (some (Counter.encode total))
  allowsSingle := true

end Operator

/-- The operators that options can name. -/
inductive OperatorKind where
  /-- One operand at a time. -/
  | associative
  /-- Whole lists of operands. -/
  | fullPartial
  deriving DecidableEq, Repr

/-- The operator of a kind. -/
def OperatorKind.operator : OperatorKind → Operator
  | .associative => Operator.addition.toOperator
  | .fullPartial => Operator.summation

/-- The identity that a store records for a kind. -/
def OperatorKind.name (kind : OperatorKind) : String := kind.operator.name

end LazyTally
