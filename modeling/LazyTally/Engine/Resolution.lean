import LazyTally.Engine.Basic
import LazyTally.Store.Layers

/-!
# Resolution of chains

How an engine turns the chain of a key into fewer records or into a value.  An
engine without an operator keeps operands as they are, and only refuses to read
them.

## Main definitions

* `Resolution.full`, `Resolution.partially` — one use of the operator.
* `Resolution.read` — the value of a chain.
* `Resolution.condense` — the records that a flush or a compaction keeps.
* `Resolution.shorten` — the record that replaces a chain beyond its limit.
-/

namespace LazyTally
namespace Resolution

open Engine (Event)

/-- Resolves operands over an existing value. -/
def full (operator : Option Operator) (key : Bytes) (existing : Option Bytes)
    (operands : List Bytes) : Attempt Event Bytes := do
  match operator with
  | none =>
      report (.operatorMissing key)
      throw (.engineRead ("merge operands for key " ++ key.text
        ++ " but no merge operator configured"))
  | some operator =>
      report (.fullMerge key)
      let merged : Traced Event (Option Bytes) :=
        (operator.fullMerge key existing operands).relabel Event.operator
      match ← merged with
      | some value => pure value
      | none => throw (.mergeFailed key)

/-- Resolves operands into one operand, if the operator can. -/
def partially (operator : Operator) (key : Bytes) (operands : List Bytes) :
    Traced Event (Option Bytes) := do
  let merged ← Traced.relabel Event.operator <|
    match operands with
    | [] => pure none
    | [operand] =>
        if operator.allowsSingle then operator.partialMergeAll key [operand] else pure none
    | [left, right] => operator.partialMerge key left right
    | operands => operator.partialMergeAll key operands
  if merged.isSome then report (.partialMerge key)
  pure merged

/-- The value that a reader sees. -/
def read (operator : Option Operator) (key : Bytes) (chain : Chain) :
    Attempt Event (Option Bytes) :=
  if chain.operands.isEmpty then pure chain.value?
  else some <$> full operator key chain.value? chain.operands

/-- The record that a chain over a known value, or over nothing, resolves to. -/
def settle (operator : Option Operator) (key : Bytes) (chain : Chain) : Attempt Event Record :=
  .put <$> full operator key chain.value? chain.operands

/-- The records of a chain without operands.  At the bottom nothing is left that a
tombstone could hide. -/
def bare (chain : Chain) (bottommost : Bool) : List Record :=
  match chain.base with
  | some .tombstone => if bottommost then [] else [.delete]
  | some (.value value) => [.put value]
  | none => []

/-- The records that a flush or a compaction keeps of a chain.  Operands are
resolved if what lies under them is known: a put, a delete, or the bottom. -/
def condense (operator : Option Operator) (key : Bytes) (chain : Chain) (bottommost : Bool) :
    Attempt Event (List Record) :=
  if chain.operands.isEmpty then pure (bare chain bottommost)
  else
    match operator with
    | none => do
        report (.operandsKept key chain.operands.length)
        pure chain.records
    | some operator =>
        if chain.base.isSome || bottommost then do
          pure [← settle operator key chain]
        else if operator.mergesOnFlush chain.operands then do
          match ← partially operator key chain.operands with
          | some operand => pure [.merge operand]
          | none => pure chain.operandRecords
        else pure chain.operandRecords

/-- The record that replaces a chain beyond its limit: a value if a put or a delete
is in the chain, else one operand, unless the operator keeps the operands. -/
def shorten (operator : Operator) (key : Bytes) (chain : Chain) :
    Attempt Event (Option Record) :=
  if chain.base.isSome then some <$> settle operator key chain
  else do return (← partially operator key chain.operands).map Record.merge

end Resolution
end LazyTally
