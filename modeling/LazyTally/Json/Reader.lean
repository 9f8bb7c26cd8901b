import LazyTally.Json.Value

/-!
# Reading JSON

One value per text, in the strict grammar: blanks are space, tab, line feed and
carriage return, there are no comments and no trailing commas, and nothing
follows the value.  Each reader takes the characters ahead and gives back what
it read and the characters after it.

## Main definitions

* `Json.Reader.stringBody` — the inside of a string literal.
* `Json.Reader.numberLiteral` — a number literal.
* `Json.Reader.value` — any value.
* `Json.parse?` — the value of a text.
-/

namespace LazyTally
namespace Json
namespace Reader

/-- The characters that may stand between tokens. -/
def isBlank (c : Char) : Bool := c = ' ' || c = '\t' || c = '\n' || c = '\r'

/-- The characters ahead after any blanks. -/
def skipBlanks (ahead : List Char) : List Char := ahead.dropWhile isBlank

/-! ### Strings -/

/-- A piece of a string literal: a character, or the number of a numeric escape. -/
inductive Piece where
  | char (c : Char)
  | unit (code : Nat)
  deriving DecidableEq, Repr

/-- The value of a hexadecimal digit. -/
def hexDigit? (c : Char) : Option Nat :=
  if '0' ≤ c ∧ c ≤ '9' then some (c.toNat - '0'.toNat)
  else if 'a' ≤ c ∧ c ≤ 'f' then some (c.toNat - 'a'.toNat + 10)
  else if 'A' ≤ c ∧ c ≤ 'F' then some (c.toNat - 'A'.toNat + 10)
  else none

/-- The number of four hexadecimal digits. -/
def hexUnit? (a b c d : Char) : Option Nat := do
  some ((((← hexDigit? a) * 16 + (← hexDigit? b)) * 16 + (← hexDigit? c)) * 16 + (← hexDigit? d))

/-- The character that a letter after a backslash stands for. -/
def escaped? : Char → Option Char
  | '"' => some '"'
  | '\\' => some '\\'
  | '/' => some '/'
  | 'b' => some '\x08'
  | 'f' => some '\x0c'
  | 'n' => some '\n'
  | 'r' => some '\r'
  | 't' => some '\t'
  | _ => none

/-- The pieces up to the closing quote.  A control character has to be escaped. -/
def pieces : List Char → Option (List Piece × List Char)
  | '"' :: rest => some ([], rest)
  | '\\' :: 'u' :: a :: b :: c :: d :: rest => do
      let code ← hexUnit? a b c d
      let (found, rest) ← pieces rest
      some (.unit code :: found, rest)
  | '\\' :: letter :: rest => do
      let c ← escaped? letter
      let (found, rest) ← pieces rest
      some (.char c :: found, rest)
  | c :: rest =>
      if c < ' ' || c = '\\' then none
      else do
        let (found, rest) ← pieces rest
        some (.char c :: found, rest)
  | [] => none

/-- The number is the first half of a surrogate pair. -/
def isHighSurrogate (code : Nat) : Bool := 0xd800 ≤ code && code < 0xdc00

/-- The number is the second half of a surrogate pair. -/
def isLowSurrogate (code : Nat) : Bool := 0xdc00 ≤ code && code < 0xe000

/-- The text of the pieces, if no half of a surrogate pair stands alone. -/
def assemble? : List Piece → Option (List Char)
  | [] => some []
  | .char c :: rest => do some (c :: (← assemble? rest))
  | .unit code :: rest =>
      if isHighSurrogate code then
        match rest with
        | .unit low :: rest =>
            if isLowSurrogate low then do
              let joined := 0x10000 + (code - 0xd800) * 0x400 + (low - 0xdc00)
              some (Char.ofNat joined :: (← assemble? rest))
            else none
        | _ => none
      else if isLowSurrogate code then none
      else do some (Char.ofNat code :: (← assemble? rest))

/-- A string literal after its opening quote: its text, if it denotes one. -/
def stringBody (ahead : List Char) : Option (Option String × List Char) := do
  let (found, rest) ← pieces ahead
  some ((assemble? found).map String.ofList, rest)

/-! ### Numbers -/

/-- The digits ahead and what follows them. -/
def digits (ahead : List Char) : List Char × List Char := ahead.span Char.isDigit

/-- The digits before the point: a zero alone, or digits that begin with another. -/
def wholePart : List Char → Option (Nat × List Char)
  | '0' :: rest => some (0, rest)
  | ahead =>
      match digits ahead with
      | ([], _) => none
      | (found, rest) => some (Nat.ofDigitChars 10 found 0, rest)

/-- A point and digits, or nothing. -/
def fraction : List Char → Option (List Char × List Char)
  | '.' :: ahead =>
      match digits ahead with
      | ([], _) => none
      | (found, rest) => some ('.' :: found, rest)
  | ahead => some ([], ahead)

/-- The digits of an exponent after the marks in front of them. -/
def exponentDigits (marks ahead : List Char) : Option (List Char × List Char) :=
  match digits ahead with
  | ([], _) => none
  | (found, rest) => some (marks ++ found, rest)

/-- The letter of an exponent, a sign if there is one, and digits; or nothing. -/
def exponent : List Char → Option (List Char × List Char)
  | letter :: ahead =>
      if letter = 'e' || letter = 'E' then
        match ahead with
        | '+' :: ahead => exponentDigits [letter, '+'] ahead
        | '-' :: ahead => exponentDigits [letter, '-'] ahead
        | ahead => exponentDigits [letter] ahead
      else some ([], letter :: ahead)
  | [] => some ([], [])

/-- A number literal after its sign. -/
def unsigned (negative : Bool) (ahead : List Char) : Option (Number × List Char) := do
  let (whole, rest) ← wholePart ahead
  let (places, rest) ← fraction rest
  let (power, rest) ← exponent rest
  some (⟨negative, whole, String.ofList (places ++ power)⟩, rest)

/-- A number literal. -/
def numberLiteral : List Char → Option (Number × List Char)
  | '-' :: ahead => unsigned true ahead
  | ahead => unsigned false ahead

/-! ### Values -/

mutual

/-- A value, after any blanks.  The fuel bounds the calls that are still to come. -/
def value : (fuel : Nat) → List Char → Option (Json × List Char)
  | 0, _ => none
  | fuel + 1, ahead =>
      match skipBlanks ahead with
      | 'n' :: 'u' :: 'l' :: 'l' :: rest => some (.null, rest)
      | 't' :: 'r' :: 'u' :: 'e' :: rest => some (.bool true, rest)
      | 'f' :: 'a' :: 'l' :: 's' :: 'e' :: rest => some (.bool false, rest)
      | '"' :: rest => do
          let (text, rest) ← stringBody rest
          some (.string text, rest)
      | '[' :: rest =>
          match skipBlanks rest with
          | ']' :: rest => some (.array [], rest)
          | rest => do
              let (found, rest) ← items fuel rest
              some (.array found, rest)
      | '{' :: rest =>
          match skipBlanks rest with
          | '}' :: rest => some (.object [], rest)
          | rest => do
              let (found, rest) ← members fuel rest
              some (.object found, rest)
      | rest => do
          let (literal, rest) ← numberLiteral rest
          some (.number literal, rest)

/-- The items of an array up to its closing bracket, at least one. -/
def items : (fuel : Nat) → List Char → Option (List Json × List Char)
  | 0, _ => none
  | fuel + 1, ahead => do
      let (item, rest) ← value fuel ahead
      match skipBlanks rest with
      | ',' :: rest => do
          let (found, rest) ← items fuel rest
          some (item :: found, rest)
      | ']' :: rest => some ([item], rest)
      | _ => none

/-- The members of an object up to its closing brace, at least one. -/
def members : (fuel : Nat) → List Char → Option (List (Option String × Json) × List Char)
  | 0, _ => none
  | fuel + 1, ahead =>
      match skipBlanks ahead with
      | '"' :: rest => do
          let (name, rest) ← stringBody rest
          match skipBlanks rest with
          | ':' :: rest => do
              let (item, rest) ← value fuel rest
              match skipBlanks rest with
              | ',' :: rest => do
                  let (found, rest) ← members fuel rest
                  some ((name, item) :: found, rest)
              | '}' :: rest => some ([(name, item)], rest)
              | _ => none
          | _ => none
      | _ => none

end

end Reader

/-- The value of a text that holds exactly one.  Each character ahead is worth two
calls: one for an item and one for the value in it. -/
def parse? (text : String) : Option Json := do
  let ahead := text.toList
  let (found, rest) ← Reader.value (2 * ahead.length + 2) ahead
  if (Reader.skipBlanks rest).isEmpty then some found else none

end Json
end LazyTally
