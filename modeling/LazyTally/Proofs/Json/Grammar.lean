import Mathlib.Data.List.Basic
import LazyTally.Json.Reader

/-!
# The grammar of JSON

Which characters spell which value, said without a word on how they are read.  A string literal
spells its characters and escapes, whatever these denote; whether they denote a text is asked
afterwards.  Blanks may stand around values and names, and nowhere else.

## Main definitions

* `Grammar.spaces`, `Grammar.Blank`, `Grammar.Digits` — what stands between tokens, and in numbers.
* `Grammar.Body`, `Grammar.Quoted` — string literals.
* `Grammar.Literal` — number literals.
* `Grammar.Value`, `Grammar.Padded`, `Grammar.Items`, `Grammar.Members` — values, alone and with
  blanks around, and the insides of arrays and objects.
* `Json.Denotes` — the text denotes the value.
-/

namespace LazyTally.Json
namespace Grammar

/-- The characters that may stand between tokens. -/
def spaces : List Char := [' ', '\t', '\n', '\r']

/-- Blanks and nothing else. -/
def Blank (chars : List Char) : Prop := ∀ c ∈ chars, c ∈ spaces

/-- Digits, at least one. -/
def Digits (chars : List Char) : Prop := chars ≠ [] ∧ ∀ c ∈ chars, c.isDigit

/-! ### Strings -/

/-- The character is the hexadecimal digit of the number; letters may be small or capital. -/
def HexDigit (c : Char) (number : Nat) : Prop :=
  number < 16 ∧ (c = Nat.digitChar number ∨ c = (Nat.digitChar number).toUpper)

/-- The letters after a backslash, with the characters that they stand for. -/
def escapes : List (Char × Char) :=
  [('"', '"'), ('\\', '\\'), ('/', '/'), ('b', '\x08'), ('f', '\x0c'), ('n', '\n'), ('r', '\r'),
    ('t', '\t')]

/-- The inside of a string literal, and its pieces. -/
inductive Body : List Char → List Reader.Piece → Prop
  | nil : Body [] []
  /-- A character that stands for itself. -/
  | plain {c : Char} {chars : List Char} {found : List Reader.Piece} (hprints : ' ' ≤ c)
      (hquote : c ≠ '"') (hbackslash : c ≠ '\\') (h : Body chars found) :
      Body (c :: chars) (.char c :: found)
  /-- A letter after a backslash. -/
  | escape {letter c : Char} {chars : List Char} {found : List Reader.Piece}
      (hescape : (letter, c) ∈ escapes) (h : Body chars found) :
      Body ('\\' :: letter :: chars) (.char c :: found)
  /-- Four hexadecimal digits. -/
  | unit {a b c d : Char} {i j k l : Nat} {chars : List Char} {found : List Reader.Piece}
      (ha : HexDigit a i) (hb : HexDigit b j) (hc : HexDigit c k) (hd : HexDigit d l)
      (h : Body chars found) :
      Body ('\\' :: 'u' :: a :: b :: c :: d :: chars)
        (.unit (((i * 16 + j) * 16 + k) * 16 + l) :: found)

/-- A string literal, and its text if it denotes one. -/
inductive Quoted : List Char → Option String → Prop
  | mk {body : List Char} {found : List Reader.Piece} (h : Body body found) :
      Quoted ('"' :: (body ++ ['"'])) ((Reader.assemble? found).map String.ofList)

/-! ### Numbers -/

/-- The digits before the point: a zero alone, or digits that begin with another. -/
inductive Whole : List Char → Prop
  | zero : Whole ['0']
  | digits {chars : List Char} (hdigits : Digits chars) (hzero : chars.head? ≠ some '0') :
      Whole chars

/-- A point and digits, or nothing. -/
inductive Fraction : List Char → Prop
  | absent : Fraction []
  | present {digits : List Char} (h : Digits digits) : Fraction ('.' :: digits)

/-- A letter, a sign if there is one, and digits; or nothing. -/
inductive Exponent : List Char → Prop
  | absent : Exponent []
  | unsigned {letter : Char} {digits : List Char} (hletter : letter = 'e' ∨ letter = 'E')
      (h : Digits digits) : Exponent (letter :: digits)
  | signed {letter sign : Char} {digits : List Char} (hletter : letter = 'e' ∨ letter = 'E')
      (hsign : sign = '+' ∨ sign = '-') (h : Digits digits) : Exponent (letter :: sign :: digits)

/-- A number literal without its sign. -/
inductive Unsigned (negative : Bool) : List Char → Number → Prop
  | mk {whole places power : List Char} (hwhole : Whole whole) (hplaces : Fraction places)
      (hpower : Exponent power) :
      Unsigned negative (whole ++ (places ++ power))
        ⟨negative, Nat.ofDigitChars 10 whole 0, String.ofList (places ++ power)⟩

/-- A number literal. -/
inductive Literal : List Char → Number → Prop
  | positive {chars : List Char} {literal : Number} (h : Unsigned false chars literal) :
      Literal chars literal
  | negative {chars : List Char} {literal : Number} (h : Unsigned true chars literal) :
      Literal ('-' :: chars) literal

/-! ### Values -/

/-- The name of a member, with blanks around it. -/
inductive Name : List Char → Option String → Prop
  | mk {before chars after : List Char} {name : Option String} (hbefore : Blank before)
      (h : Quoted chars name) (hafter : Blank after) : Name (before ++ (chars ++ after)) name

mutual

/-- A value. -/
inductive Value : List Char → Json → Prop
  | null : Value ['n', 'u', 'l', 'l'] .null
  | true : Value ['t', 'r', 'u', 'e'] (.bool true)
  | false : Value ['f', 'a', 'l', 's', 'e'] (.bool false)
  | number {chars : List Char} {literal : Number} (h : Literal chars literal) :
      Value chars (.number literal)
  | string {chars : List Char} {text : Option String} (h : Quoted chars text) :
      Value chars (.string text)
  | noItems {blanks : List Char} (h : Blank blanks) : Value ('[' :: (blanks ++ [']'])) (.array [])
  | array {chars : List Char} {found : List Json} (h : Items chars found) :
      Value ('[' :: chars) (.array found)
  | noMembers {blanks : List Char} (h : Blank blanks) :
      Value ('{' :: (blanks ++ ['}'])) (.object [])
  | object {chars : List Char} {found : List (Option String × Json)} (h : Members chars found) :
      Value ('{' :: chars) (.object found)

/-- A value with blanks around it. -/
inductive Padded : List Char → Json → Prop
  | mk {before chars after : List Char} {json : Json} (hbefore : Blank before)
      (h : Value chars json) (hafter : Blank after) : Padded (before ++ (chars ++ after)) json

/-- The items of an array and its closing bracket. -/
inductive Items : List Char → List Json → Prop
  | last {chars : List Char} {item : Json} (h : Padded chars item) :
      Items (chars ++ [']']) [item]
  | more {chars rest : List Char} {item : Json} {found : List Json} (h : Padded chars item)
      (hrest : Items rest found) : Items (chars ++ ',' :: rest) (item :: found)

/-- The members of an object and its closing brace. -/
inductive Members : List Char → List (Option String × Json) → Prop
  | last {front chars : List Char} {name : Option String} {item : Json} (hname : Name front name)
      (h : Padded chars item) : Members (front ++ ':' :: (chars ++ ['}'])) [(name, item)]
  | more {front chars rest : List Char} {name : Option String} {item : Json}
      {found : List (Option String × Json)} (hname : Name front name) (h : Padded chars item)
      (hrest : Members rest found) :
      Members (front ++ ':' :: (chars ++ ',' :: rest)) ((name, item) :: found)

end

end Grammar

/-- The text denotes the value. -/
def Denotes (text : String) (json : Json) : Prop := Grammar.Padded text.toList json

end LazyTally.Json
