import LazyTally.Text.Shown

/-!
# Quoted text

A text in messages stands between double quotes.  The quote, the backslash and
four controls have short escapes; any other character that is not shown as it is
stands as its code point in hexadecimal.

## Main definitions

* `Text.escape` — the written form of one character.
* `Text.quoted` — the written form of a text.
-/

namespace LazyTally
namespace Text

/-- The letter of a character that has a short escape. -/
def shortEscape? : Char → Option Char
  | '"' => some '"'
  | '\\' => some '\\'
  | '\n' => some 'n'
  | '\r' => some 'r'
  | '\t' => some 't'
  | '\x00' => some '0'
  | _ => none

/-- One character inside the quotes. -/
def escape (c : Char) : List Char :=
  match shortEscape? c with
  | some letter => ['\\', letter]
  | none =>
      if isShown c then [c]
      else ['\\', 'u', '\x7b'] ++ Nat.toDigits 16 c.toNat ++ ['\x7d']

/-- A text between double quotes. -/
def quoted (text : String) : String :=
  String.ofList ('"' :: text.toList.flatMap escape ++ ['"'])

end Text
end LazyTally
