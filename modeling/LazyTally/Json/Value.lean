/-!
# JSON values

Values as they are written: the members of an object keep their order and may
repeat a name, and a number keeps the form of its literal.  A string literal
whose escapes leave half of a surrogate pair alone is well formed but denotes no
text.

## Main definitions

* `Json`, `Json.Number` — values and number literals.
-/

namespace LazyTally

/-- A number literal. -/
structure Json.Number where
  /-- A minus sign stands in front. -/
  negative : Bool
  /-- The digits before the point. -/
  whole : Nat
  /-- The fraction and the exponent as written; an integer literal has neither. -/
  tail : String
  deriving DecidableEq, Repr

/-- A JSON value.  The text of a string and the name of a member are absent if
the literal denotes none. -/
inductive Json where
  | null
  | bool (value : Bool)
  | number (literal : Json.Number)
  | string (text : Option String)
  | array (items : List Json)
  | object (members : List (Option String × Json))
  deriving Repr

namespace Json

/-- The literal of a natural number. -/
def Number.ofNat (value : Nat) : Number := ⟨false, value, ""⟩

/-- The natural number of an integer literal without a sign. -/
def Number.toNat? (literal : Number) : Option Nat :=
  if literal.negative || literal.tail != "" then none else some literal.whole

/-- A natural number. -/
def nat (value : Nat) : Json := .number (.ofNat value)

/-- A text. -/
def text (value : String) : Json := .string (some value)

/-- An object with members of the given names. -/
def record (members : List (String × Json)) : Json :=
  .object (members.map fun member => (some member.1, member.2))

end Json
end LazyTally
