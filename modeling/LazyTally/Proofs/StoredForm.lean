import Mathlib.Data.Nat.Digits.Defs
import LazyTally.Proofs.Resolved

/-!
# The stored form of counters

The stored form of a counter is the list of its eight digits to base 256, in the byte order of the
machine, which is fixed here to least significant first.
So many digits are enough for every counter and too many for none, which makes the stored form a
bijection: each counter has one, and each byte string of eight bytes is one.

## Main definitions

* `Counter.Stored`, `Counter.stored` — byte strings of eight bytes, and the one of a counter.

## Main results

* `Counter.decode?_eq_some_iff` — a byte string is read as the counter whose stored form it is.
* `Counter.decode?_eq_some_iff_ofDigits` — and as the number whose digits it holds.
* `Counter.stored_form_bijective` — counters are the byte strings of eight bytes.
-/

namespace LazyTally
namespace Counter

/-- A byte string of as many bytes as a counter is stored in. -/
abbrev Stored := {bytes : Bytes // bytes.length = size}

/-- The stored form of a counter. -/
def stored (value : UInt64) : Stored := ⟨encode value, length_encode value⟩

/-- The number that a byte string denotes has its bytes as digits. -/
theorem valueOf_eq_ofDigits (bytes : Bytes) :
    valueOf bytes = Nat.ofDigits 256 (bytes.map UInt8.toNat) := by
  induction bytes with
  | nil => rfl
  | cons byte rest ih => rw [valueOf, ih, List.map_cons, Nat.ofDigits_cons]

/-- A byte string is read as the counter whose stored form it is. -/
theorem decode?_eq_some_iff {bytes : Bytes} {value : UInt64} :
    decode? bytes = some value ↔ encode value = bytes := by
  constructor
  · exact encode_of_decode?
  · rintro rfl
    exact decode?_encode value

/-- Byte strings of the right length are read, and no others. -/
theorem exists_decode?_iff {bytes : Bytes} :
    (∃ value, decode? bytes = some value) ↔ bytes.length = size := by
  constructor
  · rintro ⟨value, hread⟩
    rw [← encode_of_decode? hread, length_encode]
  · intro hlength
    exact ⟨count bytes, decode?_of_length hlength⟩

/-- A byte string of the right length is read as the number whose digits it holds. -/
theorem decode?_eq_some_iff_ofDigits {bytes : Bytes} {value : UInt64} :
    decode? bytes = some value ↔
      bytes.length = size ∧ Nat.ofDigits 256 (bytes.map UInt8.toNat) = value.toNat := by
  rw [← valueOf_eq_ofDigits]
  constructor
  · intro hread
    have hvalue := valueOf_lowBytes size value.toNat
    have hlt : value.toNat < capacity size := value.toNat_lt
    rw [← encode_of_decode? hread]
    exact ⟨length_encode value, hvalue.trans (Nat.mod_eq_of_lt hlt)⟩
  · rintro ⟨hlength, hvalue⟩
    rw [decode?, if_pos hlength, hvalue, UInt64.ofNat_toNat]

/-- Each byte string of the right length is the stored form of one counter. -/
theorem bijective_stored : Function.Bijective stored := by
  constructor
  · intro value other h
    exact encode_injective (congrArg Subtype.val h)
  · rintro ⟨bytes, hlength⟩
    obtain ⟨value, hread⟩ := exists_decode?_iff.mpr hlength
    exact ⟨value, Subtype.ext (encode_of_decode? hread)⟩

/-- The stored form is a bijection between counters and byte strings of eight bytes.  Every counter
is read back from it, a byte string is read exactly if it has eight bytes, and then it is the stored
form of the counter that is read, whose digits to base 256 it holds, least significant first. -/
theorem stored_form_bijective :
    (∀ value, decode? (encode value) = some value) ∧
    (∀ bytes, (∃ value, decode? bytes = some value) ↔ bytes.length = 8) ∧
    (∀ bytes value, decode? bytes = some value ↔ encode value = bytes) ∧
    (∀ bytes value, decode? bytes = some value ↔
      bytes.length = 8 ∧ Nat.ofDigits 256 (bytes.map UInt8.toNat) = value.toNat) ∧
    Function.Bijective stored :=
  ⟨decode?_encode, fun _ => exists_decode?_iff, fun _ _ => decode?_eq_some_iff,
    fun _ _ => decode?_eq_some_iff_ofDigits, bijective_stored⟩

/-- The least significant byte comes first. -/
example : decode? [1, 2, 0, 0, 0, 0, 0, 0] = some 513 := by decide

end Counter
end LazyTally
