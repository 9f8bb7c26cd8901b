import Mathlib.Data.List.DropRight
import Mathlib.Data.List.TakeDrop
import LazyTally.Proofs.Json.Grammar

/-!
# Reading tokens

Blanks, strings and numbers are read from the characters ahead, and what follows them is given back.
A string ends at its quote, so what follows does not matter to it.  A number has no end of its own:
it is read as far as it goes on, so what follows must not go on with it.

## Main definitions

* `Grammar.Stops` — the characters ahead do not go on with a number.

## Main results

* `Reader.stringBody_append`, `Reader.exists_quoted` — the string literals that are read are those
  of the grammar.
* `Reader.numberLiteral_append`, `Reader.exists_literal` — and so are the number literals.
-/

namespace LazyTally.Json

namespace Grammar

theorem mem_spaces_iff {c : Char} : c ∈ spaces ↔ c = ' ' ∨ c = '\t' ∨ c = '\n' ∨ c = '\r' := by
  simp [spaces]

theorem blank_nil : Blank [] := nofun

/-- The characters ahead do not go on with a number. -/
def Stops (rest : List Char) : Prop := ∀ c ∈ rest.head?, ¬c.isDigit ∧ c ∉ ['.', 'e', 'E']

theorem stops_nil : Stops [] := nofun

theorem stops_cons {c : Char} (h : ¬c.isDigit ∧ c ∉ ['.', 'e', 'E']) (rest : List Char) :
    Stops (c :: rest) := by
  intro head hhead
  obtain rfl := Option.some.inj hhead
  exact h

/-- Blanks do not go on with a number. -/
theorem Blank.stops_append {blanks rest : List Char} (h : Blank blanks) (hrest : Stops rest) :
    Stops (blanks ++ rest) := by
  cases blanks with
  | nil => exact hrest
  | cons c blanks =>
    refine stops_cons ?_ _
    rcases mem_spaces_iff.mp (h c List.mem_cons_self) with rfl | rfl | rfl | rfl <;> decide

/-- A number without a sign begins with a digit. -/
theorem Unsigned.exists_digit {negative : Bool} {chars : List Char} {literal : Number}
    (h : Unsigned negative chars literal) : ∃ c rest, chars = c :: rest ∧ c.isDigit := by
  obtain ⟨hwhole, hplaces, hpower⟩ := h
  cases hwhole with
  | zero => exact ⟨'0', _, rfl, rfl⟩
  | digits hdigits _ =>
    obtain ⟨hne, hall⟩ := hdigits
    obtain ⟨c, rest, rfl⟩ := List.exists_cons_of_ne_nil hne
    exact ⟨c, _, rfl, hall c List.mem_cons_self⟩

/-- A number does not begin with a blank. -/
theorem notMem_spaces {c : Char} (h : c.isDigit ∨ c = '-') : c ∉ spaces := by
  intro hblank
  rcases mem_spaces_iff.mp hblank with rfl | rfl | rfl | rfl <;> exact absurd h (by decide)

/-- A number literal begins with a digit or a minus sign. -/
theorem Literal.exists_head {chars : List Char} {literal : Number} (h : Literal chars literal) :
    ∃ c rest, chars = c :: rest ∧ (c.isDigit ∨ c = '-') := by
  cases h with
  | positive hunsigned =>
    obtain ⟨c, rest, hchars, hdigit⟩ := hunsigned.exists_digit
    exact ⟨c, rest, hchars, .inl hdigit⟩
  | negative hunsigned => exact ⟨'-', _, rfl, .inr rfl⟩

end Grammar

namespace Reader

open Grammar

/-- What was made of something read, and what was left then. -/
theorem exists_of_bind {α β : Type} {read : Option (α × List Char)} {make : α → β} {made : β}
    {rest : List Char}
    (h : (read >>= fun found => some (make found.1, found.2)) = some (made, rest)) :
    ∃ found, read = some (found, rest) ∧ made = make found := by
  obtain ⟨⟨found, after⟩, hread, hmade⟩ := Option.bind_eq_some_iff.mp h
  obtain ⟨rfl, rfl⟩ := Prod.mk.inj (Option.some.inj hmade)
  exact ⟨found, hread, rfl⟩

/-! ### Blanks -/

theorem isBlank_iff {c : Char} : isBlank c ↔ c ∈ spaces := by
  simp [isBlank, mem_spaces_iff, or_assoc]

/-- Blanks are skipped up to what follows them. -/
theorem skipBlanks_append {blanks : List Char} (h : Blank blanks) (rest : List Char) :
    skipBlanks (blanks ++ rest) = skipBlanks rest :=
  List.dropWhile_append_of_pos fun c hc => isBlank_iff.mpr (h c hc)

theorem skipBlanks_cons {c : Char} (h : c ∉ spaces) (rest : List Char) :
    skipBlanks (c :: rest) = c :: rest :=
  List.dropWhile_cons_of_neg fun hblank => h (isBlank_iff.mp hblank)

/-- Blanks are skipped up to the mark after them. -/
theorem skipBlanks_to {blanks : List Char} (h : Blank blanks) {c : Char}
    (hc : c ∉ spaces) (rest : List Char) :
    skipBlanks (blanks ++ c :: rest) = c :: rest := by
  rw [skipBlanks_append h, skipBlanks_cons hc]

theorem skipBlanks_skipBlanks (ahead : List Char) :
    skipBlanks (skipBlanks ahead) = skipBlanks ahead :=
  List.dropWhile_idempotent _ _

/-- What is skipped is blank. -/
theorem exists_blank (ahead : List Char) :
    ∃ blanks, Blank blanks ∧ ahead = blanks ++ skipBlanks ahead := by
  refine ⟨ahead.takeWhile isBlank, ?_, List.takeWhile_append_dropWhile.symm⟩
  intro c hc
  exact isBlank_iff.mp (List.mem_takeWhile_imp hc)

/-! ### Strings -/

theorem escaped?_eq_some_iff {letter c : Char} :
    escaped? letter = some c ↔ (letter, c) ∈ escapes := by
  constructor
  · intro h
    unfold escaped? at h
    split at h <;> simp_all [escapes, eq_comm]
  · intro h
    have hall : ∀ entry ∈ escapes, escaped? entry.1 = some entry.2 := by decide
    exact hall (letter, c) h

theorem toNat_lt_of_hexDigit? {c : Char} {number : Nat} (h : hexDigit? c = some number) :
    c.toNat < 103 := by
  unfold hexDigit? at h
  split at h
  · next hdigit =>
    have hle : c.toNat ≤ 57 := hdigit.2
    omega
  · split at h
    · next hsmall =>
      have hle : c.toNat ≤ 102 := hsmall.2
      omega
    · split at h
      · next hcapital =>
        have hle : c.toNat ≤ 70 := hcapital.2
        omega
      · exact nomatch h

theorem hexDigit?_eq_some_iff {c : Char} {number : Nat} :
    hexDigit? c = some number ↔ HexDigit c number := by
  constructor
  · intro h
    -- no character from the 103rd on is a digit, and the others can all be tried
    have hall : ∀ code < 103, ∀ number ∈ hexDigit? (Char.ofNat code),
        number < 16 ∧ (Char.ofNat code = Nat.digitChar number ∨
          Char.ofNat code = (Nat.digitChar number).toUpper) := by decide +kernel
    have hdigit := hall c.toNat (toNat_lt_of_hexDigit? h) number
    rw [Char.ofNat_toNat] at hdigit
    exact hdigit h
  · rintro ⟨hlt, rfl | rfl⟩
    · have hall : ∀ number < 16, hexDigit? (Nat.digitChar number) = some number := by decide
      exact hall number hlt
    · have hall : ∀ number < 16, hexDigit? (Nat.digitChar number).toUpper = some number := by decide
      exact hall number hlt

theorem hexUnit?_eq_some_iff {a b c d : Char} {code : Nat} :
    hexUnit? a b c d = some code ↔ ∃ i j k l, HexDigit a i ∧ HexDigit b j ∧ HexDigit c k ∧
      HexDigit d l ∧ code = ((i * 16 + j) * 16 + k) * 16 + l := by
  simp only [hexUnit?, Option.bind_eq_bind, Option.bind_eq_some_iff, hexDigit?_eq_some_iff,
    Option.some.injEq]
  constructor
  · rintro ⟨i, ha, j, hb, k, hc, l, hd, rfl⟩
    exact ⟨i, j, k, l, ha, hb, hc, hd, rfl⟩
  · rintro ⟨i, j, k, l, ha, hb, hc, hd, rfl⟩
    exact ⟨i, ha, j, hb, k, hc, l, hd, rfl⟩

/-- A character that has to be escaped does not stand for itself. -/
theorem plain_iff {c : Char} : (c < ' ' || c = '\\') = false ↔ ' ' ≤ c ∧ c ≠ '\\' := by
  rw [Bool.or_eq_false_iff, decide_eq_false_iff_not, decide_eq_false_iff_not, Char.not_lt]

theorem pieces_append {body : List Char} {found : List Piece} (h : Body body found)
    (rest : List Char) : pieces (body ++ '"' :: rest) = some (found, rest) := by
  induction h with
  | nil => rw [List.nil_append, pieces]
  | plain hprints hquote hbackslash h ih =>
    rw [List.cons_append, pieces, ih, plain_iff.mpr ⟨hprints, hbackslash⟩]
    · rfl
    · -- such a character neither closes the literal nor begins an escape
      exact hquote
    · exact fun _ _ _ _ _ heq _ => hbackslash heq
    · exact fun _ _ heq _ => hbackslash heq
  | escape hescape h ih =>
    rw [List.cons_append, List.cons_append, pieces, ih, escaped?_eq_some_iff.mpr hescape]
    · rfl
    · -- the letter of an escape is not that of a code unit
      rintro _ _ _ _ _ rfl _
      exact absurd (escaped?_eq_some_iff.mpr hescape) (by simp [escaped?])
  | unit ha hb hc hd h ih =>
    simp only [List.cons_append]
    rw [pieces, ih, hexUnit?_eq_some_iff.mpr ⟨_, _, _, _, ha, hb, hc, hd, rfl⟩]
    rfl

theorem exists_body {ahead rest : List Char} {found : List Piece}
    (h : pieces ahead = some (found, rest)) :
    ∃ body, Body body found ∧ ahead = body ++ '"' :: rest := by
  fun_induction pieces ahead generalizing found with
  | case1 rest =>
    -- the closing quote
    obtain ⟨rfl, rfl⟩ := Prod.mk.inj (Option.some.inj h)
    exact ⟨[], .nil, rfl⟩
  | case2 a b c d ahead ih =>
    -- a code unit
    obtain ⟨code, hcode, h⟩ := Option.bind_eq_some_iff.mp h
    obtain ⟨found, hfound, rfl⟩ := exists_of_bind h
    obtain ⟨body, hbody, rfl⟩ := ih hfound
    obtain ⟨i, j, k, l, ha, hb, hc, hd, rfl⟩ := hexUnit?_eq_some_iff.mp hcode
    exact ⟨_, .unit ha hb hc hd hbody, rfl⟩
  | case3 letter ahead _ ih =>
    -- another escape
    obtain ⟨c, hc, h⟩ := Option.bind_eq_some_iff.mp h
    obtain ⟨found, hfound, rfl⟩ := exists_of_bind h
    obtain ⟨body, hbody, rfl⟩ := ih hfound
    exact ⟨_, .escape (escaped?_eq_some_iff.mp hc) hbody, rfl⟩
  | case4 => exact nomatch h
  | case5 c ahead hquote _ _ hplain ih =>
    -- a character that stands for itself
    obtain ⟨found, hfound, rfl⟩ := exists_of_bind h
    obtain ⟨body, hbody, rfl⟩ := ih hfound
    obtain ⟨hprints, hbackslash⟩ := plain_iff.mp (Bool.not_eq_true _ ▸ hplain)
    exact ⟨_, .plain hprints hquote hbackslash hbody, rfl⟩
  | case6 => exact nomatch h

/-- A string literal is read up to its closing quote. -/
theorem stringBody_append {chars : List Char} {text : Option String}
    (h : Quoted ('"' :: chars) text) (rest : List Char) :
    stringBody (chars ++ rest) = some (text, rest) := by
  cases h with
  | mk hbody =>
    rw [List.append_assoc, stringBody, List.singleton_append, pieces_append hbody]
    rfl

/-- What is read as a string is a string literal. -/
theorem exists_quoted {ahead rest : List Char} {text : Option String}
    (h : stringBody ahead = some (text, rest)) :
    ∃ chars, Quoted ('"' :: chars) text ∧ ahead = chars ++ rest := by
  simp only [stringBody, Option.bind_eq_bind, Option.bind_eq_some_iff, Prod.exists,
    Option.some.injEq, Prod.mk.injEq] at h
  obtain ⟨found, after, hfound, rfl, rfl⟩ := h
  obtain ⟨body, hbody, rfl⟩ := exists_body hfound
  exact ⟨_, .mk hbody, by rw [List.append_assoc, List.singleton_append]⟩

/-! ### Numbers -/

theorem digits_append {found rest : List Char} (h : ∀ c ∈ found, c.isDigit)
    (hrest : ∀ c ∈ rest.head?, ¬c.isDigit) : digits (found ++ rest) = (found, rest) := by
  have hstop : rest.takeWhile Char.isDigit = [] ∧ rest.dropWhile Char.isDigit = rest := by
    cases rest with
    | nil => exact ⟨rfl, rfl⟩
    | cons c rest =>
      have hc := hrest c rfl
      exact ⟨List.takeWhile_cons_of_neg hc, List.dropWhile_cons_of_neg hc⟩
  rw [digits, List.span_eq_takeWhile_dropWhile, List.takeWhile_append_of_pos h,
    List.dropWhile_append_of_pos h, hstop.1, hstop.2, List.append_nil]

theorem exists_digits {ahead found rest : List Char} (h : digits ahead = (found, rest)) :
    (∀ c ∈ found, c.isDigit) ∧ ahead = found ++ rest := by
  rw [digits, List.span_eq_takeWhile_dropWhile, Prod.mk.injEq] at h
  obtain ⟨rfl, rfl⟩ := h
  exact ⟨fun c hc => List.mem_takeWhile_imp hc, List.takeWhile_append_dropWhile.symm⟩

/-- Marks and the digits after them are read together. -/
theorem exponentDigits_append (marks : List Char) {found rest : List Char} (h : Digits found)
    (hrest : ∀ c ∈ rest.head?, ¬c.isDigit) :
    exponentDigits marks (found ++ rest) = some (marks ++ found, rest) := by
  obtain ⟨hne, hall⟩ := h
  rw [exponentDigits, digits_append hall hrest]
  cases found with
  | nil => exact absurd rfl hne
  | cons c found => rfl

theorem exists_exponentDigits {marks ahead read rest : List Char}
    (h : exponentDigits marks ahead = some (read, rest)) :
    ∃ found, Digits found ∧ read = marks ++ found ∧ ahead = found ++ rest := by
  unfold exponentDigits at h
  split at h
  · exact nomatch h
  · next found after hne hfound =>
    obtain ⟨rfl, rfl⟩ := Prod.mk.inj (Option.some.inj h)
    obtain ⟨hall, hahead⟩ := exists_digits hfound
    exact ⟨found, ⟨hne, hall⟩, rfl, hahead⟩

theorem wholePart_append {whole : List Char} (h : Whole whole) {rest : List Char}
    (hrest : ∀ c ∈ rest.head?, ¬c.isDigit) :
    wholePart (whole ++ rest) = some (Nat.ofDigitChars 10 whole 0, rest) := by
  cases h with
  | zero => rfl
  | digits hdigits hzero =>
    obtain ⟨hne, hall⟩ := hdigits
    have hfound := digits_append hall hrest
    -- the reader asks for a leading zero first, which these digits do not have
    cases whole with
    | nil => exact absurd rfl hne
    | cons c whole =>
      rw [List.cons_append] at hfound ⊢
      rw [wholePart, hfound]
      intro after heq
      exact hzero (congrArg List.head? heq)

theorem exists_whole {ahead rest : List Char} {number : Nat}
    (h : wholePart ahead = some (number, rest)) :
    ∃ whole, Whole whole ∧ number = Nat.ofDigitChars 10 whole 0 ∧ ahead = whole ++ rest := by
  unfold wholePart at h
  split at h
  · -- a zero alone
    obtain ⟨rfl, rfl⟩ := Prod.mk.inj (Option.some.inj h)
    exact ⟨['0'], .zero, rfl, rfl⟩
  · next hzero =>
    split at h
    · exact nomatch h
    · next found after hne hfound =>
      -- other digits, and the first of them is not zero
      obtain ⟨rfl, rfl⟩ := Prod.mk.inj (Option.some.inj h)
      obtain ⟨hall, rfl⟩ := exists_digits hfound
      refine ⟨found, .digits ⟨hne, hall⟩ ?_, rfl, rfl⟩
      intro hhead
      obtain ⟨others, rfl⟩ := List.head?_eq_some_iff.mp hhead
      exact hzero _ rfl

theorem fraction_append {places : List Char} (h : Fraction places) {rest : List Char}
    (hrest : ∀ c ∈ rest.head?, ¬c.isDigit ∧ c ≠ '.') :
    fraction (places ++ rest) = some (places, rest) := by
  cases h with
  | absent =>
    rw [List.nil_append, fraction]
    rintro ahead rfl
    exact (hrest _ rfl).2 rfl
  | present hdigits =>
    exact exponentDigits_append ['.'] hdigits fun c hc => (hrest c hc).1

theorem exists_fraction {ahead places rest : List Char} (h : fraction ahead = some (places, rest)) :
    Fraction places ∧ ahead = places ++ rest := by
  unfold fraction at h
  split at h
  · next ahead =>
    have hread : exponentDigits ['.'] ahead = some (places, rest) := h
    obtain ⟨found, hdigits, rfl, rfl⟩ := exists_exponentDigits hread
    exact ⟨.present hdigits, rfl⟩
  · obtain ⟨rfl, rfl⟩ := Prod.mk.inj (Option.some.inj h)
    exact ⟨.absent, rfl⟩

theorem exponent_append {power : List Char} (h : Exponent power) {rest : List Char}
    (hrest : ∀ c ∈ rest.head?, ¬c.isDigit ∧ c ∉ ['e', 'E']) :
    exponent (power ++ rest) = some (power, rest) := by
  have hdigit : ∀ c ∈ rest.head?, ¬c.isDigit := fun c hc => (hrest c hc).1
  cases h with
  | absent =>
    cases rest with
    | nil => rfl
    | cons c rest =>
      -- what follows begins no exponent, so nothing is taken
      have hletter := (hrest c rfl).2
      exact if_neg (by simpa using hletter)
  | @unsigned letter found hletter hdigits =>
    have hread := exponentDigits_append [letter] hdigits hdigit
    obtain ⟨hne, hall⟩ := hdigits
    cases found with
    | nil => exact absurd rfl hne
    | cons c found =>
      -- the first digit is not a sign
      have hc := hall c List.mem_cons_self
      rw [List.cons_append, List.cons_append] at hread ⊢
      rw [exponent, if_pos (by simpa using hletter)]
      · exact hread
      · rintro _ heq
        rw [(List.cons.inj heq).1] at hc
        exact absurd hc (by decide)
      · rintro _ heq
        rw [(List.cons.inj heq).1] at hc
        exact absurd hc (by decide)
  | @signed letter sign found hletter hsign hdigits =>
    rw [List.cons_append, List.cons_append]
    rcases hsign with rfl | rfl
    · rw [exponent, if_pos (by simpa using hletter)]
      exact exponentDigits_append [letter, '+'] hdigits hdigit
    · rw [exponent, if_pos (by simpa using hletter)]
      exact exponentDigits_append [letter, '-'] hdigits hdigit

theorem exists_exponent {ahead power rest : List Char} (h : exponent ahead = some (power, rest)) :
    Exponent power ∧ ahead = power ++ rest := by
  unfold exponent at h
  split at h
  · next letter ahead =>
    split at h
    · next hletter =>
      have hletter : letter = 'e' ∨ letter = 'E' := by simpa using hletter
      -- the sign is a plus, a minus, or missing
      split at h
      · obtain ⟨found, hdigits, rfl, rfl⟩ := exists_exponentDigits h
        exact ⟨.signed hletter (.inl rfl) hdigits, rfl⟩
      · obtain ⟨found, hdigits, rfl, rfl⟩ := exists_exponentDigits h
        exact ⟨.signed hletter (.inr rfl) hdigits, rfl⟩
      · obtain ⟨found, hdigits, rfl, rfl⟩ := exists_exponentDigits h
        exact ⟨.unsigned hletter hdigits, rfl⟩
    · -- there is no exponent, and nothing was taken
      obtain ⟨rfl, rfl⟩ := Prod.mk.inj (Option.some.inj h)
      exact ⟨.absent, rfl⟩
  · obtain ⟨rfl, rfl⟩ := Prod.mk.inj (Option.some.inj h)
    exact ⟨.absent, rfl⟩

/-- After the digits of a number, an exponent begins with neither a digit nor a point. -/
theorem head_exponent {power rest : List Char} (h : Exponent power) (hrest : Stops rest) :
    ∀ c ∈ (power ++ rest).head?, ¬c.isDigit ∧ c ≠ '.' := by
  have hletter : ∀ letter : Char, letter = 'e' ∨ letter = 'E' → ¬letter.isDigit ∧ letter ≠ '.' := by
    rintro letter (rfl | rfl) <;> decide
  intro c hc
  cases h with
  | absent =>
    -- without an exponent it is the head of what follows the number
    obtain ⟨hdigit, hnot⟩ := hrest c hc
    exact ⟨hdigit, fun heq => hnot (heq ▸ List.mem_cons_self)⟩
  | unsigned hmark hdigits =>
    obtain rfl := Option.some.inj hc
    exact hletter _ hmark
  | signed hmark hsign hdigits =>
    obtain rfl := Option.some.inj hc
    exact hletter _ hmark

/-- After the digits before the point there comes no further digit. -/
theorem head_fraction {places ahead : List Char} (h : Fraction places)
    (hahead : ∀ c ∈ ahead.head?, ¬c.isDigit ∧ c ≠ '.') :
    ∀ c ∈ (places ++ ahead).head?, ¬c.isDigit := by
  intro c hc
  cases h with
  | absent => exact (hahead c hc).1
  | present hdigits =>
    obtain rfl := Option.some.inj hc
    decide

theorem unsigned_append {negative : Bool} {chars : List Char} {literal : Number}
    (h : Unsigned negative chars literal) {rest : List Char} (hrest : Stops rest) :
    unsigned negative (chars ++ rest) = some (literal, rest) := by
  cases h with
  | mk hwhole hplaces hpower =>
    -- each part ends where the next begins, so they are read one after the other
    have hexponent := head_exponent hpower hrest
    have hafter : ∀ c ∈ rest.head?, ¬c.isDigit ∧ c ∉ ['e', 'E'] := fun c hc =>
      ⟨(hrest c hc).1, fun hmem => (hrest c hc).2 (List.mem_cons_of_mem _ hmem)⟩
    rw [List.append_assoc, List.append_assoc, unsigned,
      wholePart_append hwhole (head_fraction hplaces hexponent)]
    show (fraction _ >>= _) = _
    rw [fraction_append hplaces hexponent]
    show (exponent _ >>= _) = _
    rw [exponent_append hpower hafter]
    rfl

theorem exists_unsigned {negative : Bool} {ahead rest : List Char} {literal : Number}
    (h : unsigned negative ahead = some (literal, rest)) :
    ∃ chars, Unsigned negative chars literal ∧ ahead = chars ++ rest := by
  simp only [unsigned, Option.bind_eq_bind, Option.bind_eq_some_iff, Prod.exists,
    Option.some.injEq, Prod.mk.injEq] at h
  obtain ⟨number, _, hnumber, places, _, hfraction, power, after, hexponent, rfl, rfl⟩ := h
  obtain ⟨whole, hwhole, rfl, rfl⟩ := exists_whole hnumber
  obtain ⟨hplaces, rfl⟩ := exists_fraction hfraction
  obtain ⟨hpower, rfl⟩ := exists_exponent hexponent
  exact ⟨_, .mk hwhole hplaces hpower, by rw [List.append_assoc, List.append_assoc]⟩

/-- A number literal is read, and the rest is given back. -/
theorem numberLiteral_append {chars : List Char} {literal : Number} (h : Literal chars literal)
    {rest : List Char} (hrest : Stops rest) :
    numberLiteral (chars ++ rest) = some (literal, rest) := by
  cases h with
  | positive hunsigned =>
    rw [numberLiteral, unsigned_append hunsigned hrest]
    obtain ⟨c, others, rfl, hdigit⟩ := hunsigned.exists_digit
    intro ahead heq
    rw [(List.cons.inj heq).1] at hdigit
    exact absurd hdigit (by decide)
  | negative hunsigned => exact unsigned_append hunsigned hrest

/-- What is read as a number is a number literal. -/
theorem exists_literal {ahead rest : List Char} {literal : Number}
    (h : numberLiteral ahead = some (literal, rest)) :
    ∃ chars, Literal chars literal ∧ ahead = chars ++ rest := by
  unfold numberLiteral at h
  split at h
  · obtain ⟨chars, hunsigned, rfl⟩ := exists_unsigned h
    exact ⟨_, .negative hunsigned, rfl⟩
  · obtain ⟨chars, hunsigned, rfl⟩ := exists_unsigned h
    exact ⟨_, .positive hunsigned, rfl⟩

end Reader
end LazyTally.Json
