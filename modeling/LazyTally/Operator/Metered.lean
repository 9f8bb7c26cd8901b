import LazyTally.Metrics.Sink
import LazyTally.Operator.Counting

/-!
# Operators with a sink

The operators on counters as a store builds them: with a sink, or without one.  They
count each malformed input at the moment that they read it, in the midst of a fold.

## Main definitions

* `Operator.Metered`, `Pairwise.Metered` — operators that can reach statistics.
* `Operator.Metered.addition`, `Operator.Metered.summation` — the two operators.
* `OperatorKind.build` — the operator of a kind, with or without a sink.
-/

namespace LazyTally

/-- A merge operator that can reach statistics. -/
structure Operator.Metered where
  /-- The identity that a store records. -/
  name : String
  /-- Resolves operands, oldest first, over the existing value. -/
  fullMerge (key : Bytes) (existing : Option Bytes) (operands : List Bytes) :
    Counting Operator.Event (Option Bytes)
  /-- Merges two neighbouring operands. -/
  partialMerge (key left right : Bytes) : Counting Operator.Event (Option Bytes)
  /-- Merges a list of neighbouring operands, oldest first. -/
  partialMergeAll (key : Bytes) (operands : List Bytes) :
    Counting Operator.Event (Option Bytes) := Operator.combineAll (partialMerge key) operands
  /-- A partial merge of a single operand is welcome. -/
  allowsSingle : Bool := false
  /-- A flush may merge these operands although the value under them is unknown. -/
  mergesOnFlush (operands : List Bytes) : Bool := false

/-- An operator that takes one operand at a time and can reach statistics. -/
structure Pairwise.Metered where
  /-- The identity that a store records. -/
  name : String
  /-- Combines the existing value, if any, with an operand. -/
  merge (key : Bytes) (existing : Option Bytes) (operand : Bytes) :
    Counting Operator.Event (Option Bytes)

/-- The operator that folds the step. -/
def Pairwise.Metered.toOperator (pairwise : Pairwise.Metered) : Operator.Metered where
  name := pairwise.name
  fullMerge key existing operands := Pairwise.fold (pairwise.merge key) existing operands
  partialMerge key left right := pairwise.merge key (some left) right

namespace Operator.Metered

/-- Reads a counter; anything else is reported, counted, and taken as zero. -/
def countOrZero (sink : Option Sink) (key value : Bytes) : Counting Event UInt64 :=
  match Counter.decode? value with
  | some count => pure count
  | none => do
      report (.malformed key value.length)
      record sink .corruptOperand 1
      pure 0

/-- Adds one operand to the existing value.  Without one, the operand is the
result, whatever its length, and is not read. -/
def addition (sink : Option Sink) : Pairwise.Metered where
  name := Operator.addition.name
  merge key existing operand :=
    match existing with
    | none => do
        report (.adopted key operand)
        pure (some operand)
    | some existing => do
        let base ← countOrZero sink key existing
        let delta ← countOrZero sink key operand
        report (.added key base delta)
        pure (some (Counter.encode (base + delta)))

/-- The sum of the inputs on top of `total`. -/
def sumOnto (sink : Option Sink) (key : Bytes) :
    (total : UInt64) → List Bytes → Counting Event UInt64
  | total, [] => pure total
  | total, value :: rest => do
      let count ← countOrZero sink key value
      sumOnto sink key (total + count) rest

/-- Sums the existing value, if any, and all operands. -/
def summation (sink : Option Sink) : Operator.Metered where
  name := Operator.summation.name
  fullMerge key existing operands := do
    let total ← sumOnto sink key 0 (existing.toList ++ operands)
    report (.fullSum key (existing.map List.length) operands.length total)
    pure (some (Counter.encode total))
  partialMerge key left right := do
    let total ← sumOnto sink key 0 [left, right]
    report (.pairSum key total)
    pure (some (Counter.encode total))
  partialMergeAll key operands := do
    let total ← sumOnto sink key 0 operands
    report (.listSum key operands.length total)
    pure (some (Counter.encode total))
  allowsSingle := true

end Operator.Metered

open Operator.Metered (addition summation)

/-- The operator of a kind, built with the sink of the engine, if it has one. -/
def OperatorKind.build : OperatorKind → Option Sink → Operator.Metered
  | .associative, some sink => (addition (some sink)).toOperator
  | .associative, none => (addition none).toOperator
  | .fullPartial, some sink => summation (some sink)
  | .fullPartial, none => summation none

end LazyTally
