import Mathlib.Data.List.Nodup
import LazyTally.Json.Fields
import LazyTally.Proofs.Json.Written

/-!
# Forms and what they read

For each kind of value, which JSON means which value.  This is said without the reader, which is
then shown to read just that, and to read back what the writer writes.

## Main definitions

* `Word`, `Flag`, `Named`, `Nullable` — which JSON means which value of a kind.
* `Form.Lawful` — the form reads what means a value, and what it writes means the value.

## Main results

* `Form.lawful_word`, `Form.lawful_flag`, `Form.lawful_variant`, `Form.Lawful.optional` — the forms
  are lawful.
-/

namespace LazyTally.Json

variable {α : Type}

/-! ### Meanings -/

/-- A word is meant by the literal of its number. -/
def Word (json : Json) (value : UInt64) : Prop := json = .nat value.toNat

/-- A truth value is meant by itself. -/
def Flag (json : Json) (value : Bool) : Prop := json = .bool value

/-- A named value is meant by its name, alone or as the name of a single member that is null. -/
def Named (names : List (String × α)) (json : Json) (value : α) : Prop :=
  ∃ name, (name, value) ∈ names ∧ (json = .text name ∨ json = .object [(some name, .null)])

/-- An optional value is meant by null, or by what means it without being optional. -/
def Nullable (means : Json → α → Prop) (json : Json) (value : Option α) : Prop :=
  json = .null ∧ value = none ∨ ∃ inner, value = some inner ∧ means json inner

/-! ### Forms -/

/-- Among different names, the entry with a name is found by it. -/
theorem find?_eq_some_iff_of_nodup {key : α → String} {entries : List α}
    (h : (entries.map key).Nodup) {name : String} {entry : α} :
    (entries.find? fun entry => key entry == name) = some entry
      ↔ entry ∈ entries ∧ key entry = name := by
  constructor
  · intro hfound
    exact ⟨List.mem_of_find?_eq_some hfound, by simpa using List.find?_some hfound⟩
  · rintro ⟨hmem, hname⟩
    have hsome : (entries.find? fun entry => key entry == name).isSome :=
      List.find?_isSome.mpr ⟨entry, hmem, beq_iff_eq.mpr hname⟩
    obtain ⟨found, hfound⟩ := Option.isSome_iff_exists.mp hsome
    have hkey : key found = name := by simpa using List.find?_some hfound
    rw [hfound, List.inj_on_of_nodup_map h (List.mem_of_find?_eq_some hfound) hmem
      (hkey.trans hname.symm)]

/-- The literal of a natural number is the only one that gives it. -/
theorem Number.toNat?_eq_some_iff {literal : Number} {number : Nat} :
    literal.toNat? = some number ↔ literal = .ofNat number := by
  obtain ⟨negative, whole, tail⟩ := literal
  unfold Number.toNat? Number.ofNat
  split
  · next h =>
    refine iff_of_false (fun heq => nomatch heq) fun heq => ?_
    obtain ⟨rfl, rfl, rfl⟩ := Number.mk.inj heq
    exact absurd h (by simp)
  · next h =>
    simp only [Bool.or_eq_true, bne_iff_ne, ne_eq, not_or, Bool.not_eq_true, not_not] at h
    simp [h]

namespace Form

/-- The form reads what means a value, and nothing else; what it writes for a value is spelled and
means the value. -/
structure Lawful (form : Form α) (means : Json → α → Prop) : Prop where
  /-- What means a value is read, and nothing else. -/
  decode?_eq_some_iff : ∀ json value, form.decode? json = some value ↔ means json value
  /-- What is written for a value means it. -/
  means_encode : ∀ value, means (form.encode value) value
  /-- What is written is spelled. -/
  spelled : ∀ value, Spelled (form.encode value)

theorem decode?_word_eq_some_iff {json : Json} {value : UInt64} :
    word.decode? json = some value ↔ Word json value := by
  constructor
  · intro h
    cases json with
    | number literal =>
      obtain ⟨number, hnumber, h⟩ := Option.bind_eq_some_iff.mp h
      split at h
      · -- the number fits into a word
        next hlt =>
        obtain rfl := Option.some.inj h
        rw [Number.toNat?_eq_some_iff.mp hnumber, Word, UInt64.toNat_ofNat_of_lt' hlt]
        rfl
      · exact nomatch h
    | _ => exact nomatch h
  · rintro rfl
    show ((Number.ofNat value.toNat).toNat? >>= _) = _
    rw [Number.toNat?_eq_some_iff.mpr rfl, Option.bind_eq_bind, Option.bind_some,
      if_pos value.toNat_lt, UInt64.ofNat_toNat]

theorem decode?_flag_eq_some_iff {json : Json} {value : Bool} :
    flag.decode? json = some value ↔ Flag json value := by
  cases json <;> simp [flag, Flag]

/-- Among different names, the value with a name is the one beside it. -/
theorem named?_eq_some_iff {names : List (String × α)} (h : (names.map Prod.fst).Nodup)
    {name : String} {value : α} : named? names name = some value ↔ (name, value) ∈ names := by
  rw [named?, Option.map_eq_some_iff]
  constructor
  · rintro ⟨⟨found, _⟩, hfound, rfl⟩
    obtain ⟨hmem, rfl⟩ := (find?_eq_some_iff_of_nodup h).mp hfound
    exact hmem
  · intro hmem
    exact ⟨(name, value), (find?_eq_some_iff_of_nodup h).mpr ⟨hmem, rfl⟩, rfl⟩

theorem decode?_variant_eq_some_iff [DecidableEq α] {names : List (String × α)}
    (h : (names.map Prod.fst).Nodup) {json : Json} {value : α} :
    (variant names).decode? json = some value ↔ Named names json value := by
  simp only [Named, ← named?_eq_some_iff h]
  constructor
  · intro hread
    unfold variant at hread
    dsimp only at hread
    -- a name alone, or an object with one member that is null
    split at hread
    · exact ⟨_, hread, .inl rfl⟩
    · exact ⟨_, hread, .inr rfl⟩
    · exact nomatch hread
  · rintro ⟨name, hname, rfl | rfl⟩
    · exact hname
    · exact hname

theorem lawful_word : word.Lawful Word where
  decode?_eq_some_iff _ _ := decode?_word_eq_some_iff
  means_encode _ := rfl
  spelled value := spelled_nat value.toNat

theorem lawful_flag : flag.Lawful Flag where
  decode?_eq_some_iff _ _ := decode?_flag_eq_some_iff
  means_encode _ := rfl
  spelled := spelled_bool

/-- A value that has a name is written as one. -/
theorem exists_encode_variant [DecidableEq α] {names : List (String × α)} {value : α}
    (h : value ∈ names.map Prod.snd) :
    ∃ name, (name, value) ∈ names ∧ (variant names).encode value = .text name := by
  obtain ⟨entry, hmem, hentry⟩ := List.mem_map.mp h
  have hsome : (names.find? fun entry => entry.2 = value).isSome :=
    List.find?_isSome.mpr ⟨entry, hmem, decide_eq_true hentry⟩
  obtain ⟨⟨found, other⟩, hfound⟩ := Option.isSome_iff_exists.mp hsome
  obtain rfl : other = value := by simpa using List.find?_some hfound
  exact ⟨found, List.mem_of_find?_eq_some hfound, by simp only [variant, hfound]⟩

/-- Values that all have a name, no two the same, are read and written by their names. -/
theorem lawful_variant [DecidableEq α] {names : List (String × α)}
    (h : (names.map Prod.fst).Nodup) (hall : ∀ value, value ∈ names.map Prod.snd) :
    (variant names).Lawful (Named names) where
  decode?_eq_some_iff _ _ := decode?_variant_eq_some_iff h
  means_encode value := by
    obtain ⟨name, hmem, hencode⟩ := exists_encode_variant (hall value)
    exact ⟨name, hmem, .inl hencode⟩
  spelled value := by
    obtain ⟨name, -, hencode⟩ := exists_encode_variant (hall value)
    rw [hencode]
    exact spelled_string (some name)

/-- A form in which null means nothing can be made optional. -/
theorem Lawful.optional {form : Form α} {means : Json → α → Prop} (h : form.Lawful means)
    (hnull : ∀ value, ¬means .null value) : form.optional.Lawful (Nullable means) where
  decode?_eq_some_iff json value := by
    simp only [Nullable, ← h.decode?_eq_some_iff]
    -- null is not read by the inner form, so it always stands for no value
    have hnone : form.decode? .null = none := Option.eq_none_iff_forall_ne_some.mpr
      fun value heq => hnull value ((h.decode?_eq_some_iff _ _).mp heq)
    cases json with
    | null => simp [Form.optional, hnone, eq_comm]
    | _ =>
      constructor
      · intro hread
        obtain ⟨inner, hinner, rfl⟩ := Option.map_eq_some_iff.mp hread
        exact .inr ⟨inner, rfl, hinner⟩
      · rintro (⟨heq, -⟩ | ⟨inner, rfl, hinner⟩)
        · exact nomatch heq
        · exact Option.map_eq_some_iff.mpr ⟨inner, hinner, rfl⟩
  means_encode value := by
    cases value with
    | none => exact .inl ⟨rfl, rfl⟩
    | some value => exact .inr ⟨value, rfl, h.means_encode value⟩
  spelled value := by
    cases value with
    | none => exact spelled_null
    | some value => exact h.spelled value

end Form

end LazyTally.Json
