import LazyTally.Operator.Pairwise

/-!
# Operators on raw bytes

Two operators that put byte strings together and, unlike those on counters, can
fail.  No option names them, so no store is opened with them: they are here for
comparisons and examples, and show what an engine has to expect of an operator.

## Main definitions

* `concatenation` — appends each operand, and refuses one of them.
* `joining` — merges a pair only if the left operand is not the longer one.
-/

namespace LazyTally
namespace Operator

/-- Appends the operand to the existing value, or to the key if there is none.
The single byte 255 is refused. -/
def concatenation : Pairwise where
  name := "Concat"
  merge key existing operand :=
    if operand = [255] then pure none
    else pure (some (existing.getD key ++ operand))

/-- Keeps the existing value, or else takes the newest operand; a pair merges to
its concatenation unless the left operand is longer. -/
def joining : Operator where
  name := "Plain"
  fullMerge _ existing operands := pure (existing.or operands.getLast?)
  partialMerge _ left right :=
    pure (if right.length < left.length then none else some (left ++ right))

end Operator
end LazyTally
