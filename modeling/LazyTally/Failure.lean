import LazyTally.Bytes
import LazyTally.Text.Quoted

/-!
# Failures of a store

Why a call on an engine or on the counters in it did not succeed.  The wording
is in one place, `Failure.message`.
-/

namespace LazyTally

/-- Why a call failed. -/
inductive Failure where
  /-- The engine could not write. -/
  | engineWrite (text : String)
  /-- The engine could not read. -/
  | engineRead (text : String)
  /-- The bytes stored for a counter are not eight. -/
  | corruption (key : Bytes) (size : Nat)
  /-- The merge operator gave no value. -/
  | mergeFailed (key : Bytes)
  /-- The store was written under another merge operator, or under one where
  none is configured. -/
  | operatorMismatch (stored configured : Option String)
  /-- The engine could not be opened. -/
  | cannotOpen (text : String)
  deriving DecidableEq, Repr

/-- The name of an operator, or its absence, as it stands in messages. -/
def operatorText : Option String → String
  | none => "None"
  | some name => "Some(" ++ Text.quoted name ++ ")"

/-- What a failure says to its reader. -/
def Failure.message : Failure → String
  | .engineWrite text => "engine write failed: " ++ text
  | .engineRead text => "engine read failed: " ++ text
  | .corruption key size =>
      "value corruption for key " ++ key.text ++ ": expected 8 bytes, found " ++ size.repr
  | .mergeFailed key => "merge operator failed to resolve key " ++ key.text
  | .operatorMismatch stored configured =>
      "merge operator mismatch: stored " ++ operatorText stored ++ ", configured "
        ++ operatorText configured
  | .cannotOpen text => "cannot open engine: " ++ text

end LazyTally
