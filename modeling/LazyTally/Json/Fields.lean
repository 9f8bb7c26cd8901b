import LazyTally.Json.Reader
import LazyTally.Json.Writer

/-!
# Records in JSON

A record is described by its fields, in order.  It is read from an object, whose
members replace fields of a default, or from an array that gives the first
fields in order; it is written as an object with all its fields.

## Main definitions

* `Json.Form` — how one kind of value is read and written.
* `Json.Field` — a named part of a record and its form.
* `Json.decodeFields?`, `Json.encodeFields` — reading and writing a record.
-/

namespace LazyTally
namespace Json

/-! ### Forms of values -/

/-- How a kind of value is read and written. -/
structure Form (α : Type) where
  /-- Reads a value; what has another form is refused. -/
  decode? : Json → Option α
  /-- Writes a value. -/
  encode : α → Json

namespace Form

/-- An unsigned 64 bit number, given as an integer literal. -/
def word : Form UInt64 where
  decode?
    | .number literal => do
        let value ← literal.toNat?
        if value < UInt64.size then some (UInt64.ofNat value) else none
    | _ => none
  encode value := .nat value.toNat

/-- A truth value. -/
def flag : Form Bool where
  decode?
    | .bool value => some value
    | _ => none
  encode := .bool

/-- The value with a name. -/
def named? {α : Type} (names : List (String × α)) (name : String) : Option α :=
  (names.find? fun entry => entry.1 == name).map Prod.snd

/-- One of several named values: its name, or an object whose only member has that
name and is null. -/
def variant {α : Type} [DecidableEq α] (names : List (String × α)) : Form α where
  decode?
    | .string (some name) => named? names name
    | .object [(some name, .null)] => named? names name
    | _ => none
  encode value :=
    match names.find? fun entry => entry.2 = value with
    | some (name, _) => .text name
    | none => .null

/-- A value or null. -/
def optional {α : Type} (form : Form α) : Form (Option α) where
  decode?
    | .null => some none
    | json => (form.decode? json).map some
  encode
    | none => .null
    | some value => form.encode value

end Form

/-! ### Fields -/

/-- A named part of a record. -/
structure Field (ρ : Type) where
  /-- The name of the member. -/
  name : String
  /-- The record with this part replaced by what the value gives. -/
  replace? : Json → ρ → Option ρ
  /-- The value of this part. -/
  encode : ρ → Json

/-- The field of a part with a form. -/
def Field.of {ρ α : Type} (name : String) (form : Form α) (part : ρ → α)
    (replace : α → ρ → ρ) : Field ρ where
  name := name
  replace? json record := (form.decode? json).map fun value => replace value record
  encode record := form.encode (part record)

/-- Replaces parts by members, in order.  A member with an unknown name is passed
over; a field that was given before is refused. -/
def overlay? {ρ : Type} (fields : List (Field ρ)) :
    (given : List String) → List (Option String × Json) → ρ → Option ρ
  | _, [], record => some record
  | _, (none, _) :: _, _ => none
  | given, (some name, value) :: rest, record =>
      match fields.find? fun field => field.name == name with
      | none => overlay? fields given rest record
      | some field =>
          if given.contains name then none
          else do overlay? fields (name :: given) rest (← field.replace? value record)

/-- Replaces the first parts by values, in order; more values than fields are
refused. -/
def overlayFirst? {ρ : Type} : List (Field ρ) → List Json → ρ → Option ρ
  | _, [], record => some record
  | [], _ :: _, _ => none
  | field :: fields, value :: rest, record => do
      overlayFirst? fields rest (← field.replace? value record)

/-- Reads a record.  What is not given stays as in `standard`. -/
def decodeFields? {ρ : Type} (fields : List (Field ρ)) (standard : ρ) : Json → Option ρ
  | .object members => overlay? fields [] members standard
  | .array items => overlayFirst? fields items standard
  | _ => none

/-- Writes a record with all its fields. -/
def encodeFields {ρ : Type} (fields : List (Field ρ)) (record : ρ) : Json :=
  .record (fields.map fun field => (field.name, field.encode record))

end Json
end LazyTally
