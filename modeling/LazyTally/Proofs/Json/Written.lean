import LazyTally.Json.Writer
import LazyTally.Proofs.Json.Values

/-!
# What is written denotes what it was written for

The writer spells the values that configurations are written as: null, truth values, natural
numbers, strings and objects of these.  Each text that it gives for one of them denotes that value.

## Main definitions

* `Json.Spelled` — what is written for the value spells it.

## Main results

* `spelled_null`, `spelled_bool`, `spelled_nat`, `spelled_string`, `spelled_object` — the values
  that are spelled.
* `Spelled.denotes` — the text that is written for such a value denotes it.
-/

namespace LazyTally.Json

/-- What is written for the value spells it. -/
def Spelled (json : Json) : Prop := Grammar.Value (Writer.value json) json

namespace Grammar

/-! ### Without blanks -/

theorem Value.padded {chars : List Char} {json : Json} (h : Value chars json) :
    Padded chars json := by
  have hpadded := Padded.mk blank_nil h blank_nil
  rwa [List.nil_append, List.append_nil] at hpadded

theorem Quoted.name {chars : List Char} {name : Option String} (h : Quoted chars name) :
    Name chars name := by
  have hname := Name.mk blank_nil h blank_nil
  rwa [List.nil_append, List.append_nil] at hname

/-! ### Strings -/

theorem mem_escapes_of_escapeLetter? {c letter : Char} (h : Writer.escapeLetter? c = some letter) :
    (letter, c) ∈ escapes := by
  unfold Writer.escapeLetter? at h
  split at h <;> simp_all [escapes, eq_comm]

theorem ne_of_escapeLetter? {c : Char} (h : Writer.escapeLetter? c = none) :
    c ≠ '"' ∧ c ≠ '\\' := by
  constructor <;> rintro rfl <;> exact absurd h (by decide)

/-- A control character is below the surrogates, and its two hexadecimal digits denote it. -/
theorem assemble?_control {c : Char} (h : c < ' ') {found : List Reader.Piece} :
    Reader.assemble? (.unit (((0 * 16 + 0) * 16 + c.toNat / 16) * 16 + c.toNat % 16) :: found)
      = (Reader.assemble? found).map (c :: ·) := by
  have hlt : c.toNat < 32 := h
  have hcode : ((0 * 16 + 0) * 16 + c.toNat / 16) * 16 + c.toNat % 16 = c.toNat := by omega
  have hhigh : Reader.isHighSurrogate c.toNat = false := by
    rw [Reader.isHighSurrogate, decide_eq_false (by omega), Bool.false_and]
  have hlow : Reader.isLowSurrogate c.toNat = false := by
    rw [Reader.isLowSurrogate, decide_eq_false (by omega), Bool.false_and]
  rw [hcode]
  conv_lhs => unfold Reader.assemble?
  simp only [hhigh, hlow, Char.ofNat_toNat]
  cases Reader.assemble? found <;> rfl

/-- The characters of a text, with the escapes they need, are the inside of a string literal that
denotes the text. -/
theorem exists_body_escape (text : List Char) :
    ∃ found, Body (text.flatMap Writer.escape) found ∧ Reader.assemble? found = some text := by
  induction text with
  | nil => exact ⟨[], .nil, rfl⟩
  | cons c text ih =>
    obtain ⟨found, hbody, hfound⟩ := ih
    rw [List.flatMap_cons, Writer.escape]
    -- a character is written as an escape, by its code, or as it is
    split
    · next letter hletter =>
      refine ⟨_, .escape (mem_escapes_of_escapeLetter? hletter) hbody, ?_⟩
      rw [Reader.assemble?, hfound]
      rfl
    · next hnone =>
      split
      · next hcontrol =>
        have hlt : c.toNat < 32 := hcontrol
        have hzero : HexDigit '0' 0 := ⟨by decide, .inl rfl⟩
        -- two hexadecimal digits are enough for a control character
        refine ⟨_, .unit hzero hzero ⟨?_, .inl rfl⟩ ⟨?_, .inl rfl⟩ hbody, ?_⟩
        · omega
        · omega
        · rw [assemble?_control hcontrol, hfound]
          rfl
      · next hprints =>
        obtain ⟨hquote, hbackslash⟩ := ne_of_escapeLetter? hnone
        refine ⟨_, .plain (Char.not_lt.mp hprints) hquote hbackslash hbody, ?_⟩
        rw [Reader.assemble?, hfound]
        rfl

/-- What is written for a string spells it, also where no text is denoted. -/
theorem quoted_written (text : Option String) : Quoted (Writer.quoted text) text := by
  cases text with
  | none =>
    have hbody : Body ['\\', 'u', 'd', '8', '0', '0']
        [.unit (((13 * 16 + 8) * 16 + 0) * 16 + 0)] :=
      .unit ⟨by decide, .inl rfl⟩ ⟨by decide, .inl rfl⟩ ⟨by decide, .inl rfl⟩ ⟨by decide, .inl rfl⟩
        .nil
    exact .mk hbody
  | some text =>
    obtain ⟨found, hbody, hfound⟩ := exists_body_escape text.toList
    have hquoted := Quoted.mk hbody
    rw [hfound, Option.map_some, String.ofList_toList] at hquoted
    exact hquoted

/-! ### Numbers -/

/-- The digits of a number begin with zero only if they are zero alone. -/
theorem head?_toDigits {number : Nat} (h : 0 < number) :
    (Nat.toDigits 10 number).head? ≠ some '0' := by
  induction number using Nat.strong_induction_on with
  | _ number ih =>
    rw [Nat.toDigits_eq_if (by decide)]
    split
    · simp only [List.head?_cons, ne_eq, Option.some.injEq, Nat.digitChar_eq_zero]
      omega
    · have hless := ih (number / 10) (by omega) (by omega)
      rw [List.head?_append_of_ne_nil _ Nat.toDigits_ne_nil]
      exact hless

theorem whole_toDigits (number : Nat) : Whole (Nat.toDigits 10 number) := by
  rcases Nat.eq_zero_or_pos number with rfl | hpos
  · rw [Nat.toDigits_zero]
    exact .zero
  · exact .digits ⟨Nat.toDigits_ne_nil, fun c hc => Nat.isDigit_of_mem_toDigits (by decide)
      (by decide) hc⟩ (head?_toDigits hpos)

/-- What is written for a natural number is a literal of it. -/
theorem literal_written (number : Nat) :
    Literal (Writer.number (.ofNat number)) (.ofNat number) := by
  have hliteral := Literal.positive (.mk (whole_toDigits number) .absent .absent)
  rw [Nat.ofDigitChars_ten_toDigits] at hliteral
  exact hliteral

/-! ### Objects -/

theorem members_written {name : Option String} {item : Json} {rest : List (Option String × Json)}
    (hitem : Spelled item) (hrest : ∀ other ∈ rest, Spelled other.2) :
    Members (Writer.quoted name ++ ':' :: Writer.value item ++ Writer.members rest)
      ((name, item) :: rest) := by
  induction rest generalizing name item with
  | nil =>
    rw [List.append_assoc, List.cons_append]
    exact .last (quoted_written name).name hitem.padded
  | cons other rest ih =>
    obtain ⟨hother, hrest⟩ := List.forall_mem_cons.mp hrest
    rw [List.append_assoc, List.cons_append]
    exact .more (quoted_written name).name hitem.padded (ih hother hrest)

end Grammar

open Grammar

/-! ### Values that are spelled -/

theorem spelled_null : Spelled .null := .null

theorem spelled_bool (value : Bool) : Spelled (.bool value) := by
  cases value with
  | true => exact .true
  | false => exact .false

theorem spelled_nat (value : Nat) : Spelled (.nat value) := .number (literal_written value)

theorem spelled_string (text : Option String) : Spelled (.string text) :=
  .string (quoted_written text)

theorem spelled_object {members : List (Option String × Json)}
    (h : ∀ member ∈ members, Spelled member.2) : Spelled (.object members) := by
  cases members with
  | nil => exact .noMembers blank_nil
  | cons member rest =>
    obtain ⟨hmember, hrest⟩ := List.forall_mem_cons.mp h
    exact .object (members_written hmember hrest)

/-- The text that is written for a value denotes it. -/
theorem Spelled.denotes {json : Json} (h : Spelled json) : Denotes json.render json := by
  rw [Denotes, render, String.toList_ofList]
  exact h.padded

end LazyTally.Json
