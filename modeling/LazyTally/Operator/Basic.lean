import LazyTally.Metrics.Ticker
import LazyTally.Text.Log
import LazyTally.Trace

/-!
# Merge operators

A merge operator resolves operands that were appended to a key.  A *full* merge
turns a chain of operands and the value under it into a value; a *partial* merge
turns operands into one operand that stands for them, before the value under
them is known.

## Main definitions

* `Operator.Event` — what an operator reports, with its log line and ticker.
* `Operator` — an operator as an engine sees it.
* `Operator.combineAll` — the partial merge of a list, from that of a pair.
-/

namespace LazyTally

/-- What a merge operator reports while it works. -/
inductive Operator.Event where
  /-- An input is no counter and counts as zero. -/
  | malformed (key : Bytes) (size : Nat)
  /-- There was nothing to add to, so the operand is the result. -/
  | adopted (key operand : Bytes)
  /-- A counter was added to another. -/
  | added (key : Bytes) (existing operand : UInt64)
  /-- A value of the given size, if any, and operands were summed. -/
  | fullSum (key : Bytes) (existing : Option Nat) (operands : Nat) (total : UInt64)
  /-- Two operands were summed. -/
  | pairSum (key : Bytes) (total : UInt64)
  /-- A list of operands was summed. -/
  | listSum (key : Bytes) (operands : Nat) (total : UInt64)
  deriving DecidableEq, Repr

namespace Operator.Event

/-- The ticker that an event raises. -/
def ticker? : Event → Option Ticker
  | .malformed _ _ => some .corruptOperand
  | _ => none

/-- The size of an optional value, as it stands in log lines. -/
def sizeText : Option Nat → String
  | none => "None"
  | some size => "Some(" ++ size.repr ++ ")"

/-- The log line of an event. -/
def line : Event → LogLine
  | .malformed key size =>
      ⟨.warn, "malformed counter operand for key " ++ key.text ++ ": " ++ size.repr
        ++ " bytes, folded as 0"⟩
  | .adopted key operand =>
      ⟨.trace, "merge " ++ key.text ++ ": no existing value, operand " ++ operand.text⟩
  | .added key existing operand =>
      ⟨.trace, "merge " ++ key.text ++ ": existing " ++ existing.toNat.repr ++ " operand "
        ++ operand.toNat.repr⟩
  | .fullSum key existing operands total =>
      ⟨.trace, "full merge " ++ key.text ++ ": existing " ++ sizeText existing ++ ", "
        ++ operands.repr ++ " operands, total " ++ total.toNat.repr⟩
  | .pairSum key total =>
      ⟨.trace, "partial merge " ++ key.text ++ ": total " ++ total.toNat.repr⟩
  | .listSum key operands total =>
      ⟨.trace, "partial merge " ++ key.text ++ ": " ++ operands.repr ++ " operands, total "
        ++ total.toNat.repr⟩

end Operator.Event

/-! ### Operators -/

/-- Merges operands into one that stands before them, oldest first; a pair that
does not merge ends the attempt. -/
def Operator.combineOnto {m : Type → Type} [Monad m]
    (combine : Bytes → Bytes → m (Option Bytes)) :
    (merged : Bytes) → List Bytes → m (Option Bytes)
  | merged, [] => pure (some merged)
  | merged, operand :: rest => do
      match ← combine merged operand with
      | none => pure none
      | some merged => combineOnto combine merged rest

/-- Merges a list of operands pair by pair, oldest first.  Nothing comes of no
operands, and one operand is already merged. -/
def Operator.combineAll {m : Type → Type} [Monad m]
    (combine : Bytes → Bytes → m (Option Bytes)) : List Bytes → m (Option Bytes)
  | [] => pure none
  | first :: rest => combineOnto combine first rest

/-- A merge operator as an engine sees it. -/
structure Operator where
  /-- The identity that a store records. -/
  name : String
  /-- Resolves operands, oldest first, over the existing value.  No answer means
  that the merge failed. -/
  fullMerge (key : Bytes) (existing : Option Bytes) (operands : List Bytes) :
    Traced Operator.Event (Option Bytes)
  /-- Merges two neighbouring operands.  No answer means that both are kept. -/
  partialMerge (key left right : Bytes) : Traced Operator.Event (Option Bytes)
  /-- Merges a list of neighbouring operands, oldest first. -/
  partialMergeAll (key : Bytes) (operands : List Bytes) : Traced Operator.Event (Option Bytes) :=
    Operator.combineAll (partialMerge key) operands
  /-- A partial merge of a single operand is welcome. -/
  allowsSingle : Bool := false
  /-- A flush may merge these operands although the value under them is unknown. -/
  mergesOnFlush (operands : List Bytes) : Bool := false

end LazyTally
