import LazyTally.Json.Value

/-!
# Writing JSON

Values are written on one line without blanks.  A character of a string stands
for itself unless it is a quote, a backslash or a control character.

## Main definitions

* `Json.Writer.quoted` — a string literal.
* `Json.render` — the text of a value.
-/

namespace LazyTally
namespace Json
namespace Writer

/-- The letter after the backslash of a character with a short escape. -/
def escapeLetter? : Char → Option Char
  | '"' => some '"'
  | '\\' => some '\\'
  | '\x08' => some 'b'
  | '\x0c' => some 'f'
  | '\n' => some 'n'
  | '\r' => some 'r'
  | '\t' => some 't'
  | _ => none

/-- A character inside a string literal. -/
def escape (c : Char) : List Char :=
  match escapeLetter? c with
  | some letter => ['\\', letter]
  | none =>
      if c < ' ' then
        ['\\', 'u', '0', '0', Nat.digitChar (c.toNat / 16), Nat.digitChar (c.toNat % 16)]
      else [c]

/-- A string literal.  A literal that denotes no text is written as half of a
surrogate pair. -/
def quoted : Option String → List Char
  | some text => '"' :: text.toList.flatMap escape ++ ['"']
  | none => "\"\\ud800\"".toList

/-- A number literal. -/
def number (literal : Number) : List Char :=
  (if literal.negative then ['-'] else []) ++ Nat.toDigits 10 literal.whole
    ++ literal.tail.toList

mutual

/-- The characters of a value. -/
def value : Json → List Char
  | .null => "null".toList
  | .bool true => "true".toList
  | .bool false => "false".toList
  | .number literal => number literal
  | .string text => quoted text
  | .array [] => ['[', ']']
  | .array (item :: rest) => '[' :: value item ++ items rest
  | .object [] => ['{', '}']
  | .object ((name, item) :: rest) => '{' :: quoted name ++ ':' :: value item ++ members rest

/-- The further items of an array and its closing bracket. -/
def items : List Json → List Char
  | [] => [']']
  | item :: rest => ',' :: value item ++ items rest

/-- The further members of an object and its closing brace. -/
def members : List (Option String × Json) → List Char
  | [] => ['}']
  | (name, item) :: rest => ',' :: quoted name ++ ':' :: value item ++ members rest

end

end Writer

/-- The text of a value. -/
def render (json : Json) : String := String.ofList (Writer.value json)

end Json
end LazyTally
