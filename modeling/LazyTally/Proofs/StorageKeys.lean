import LazyTally.Workload.KeySource

/-!
# Storage keys of counters

The key of a counter ends in the decimal digits of its index.  Zeros in front do not change the
number that digits denote, so the index can be read off its key, and different counters have
different keys, also where their indexes take more digits than the key has at least.

## Main results

* `ofDigitChars_paddedDigits` — padded digits denote their number.
* `storageKey_inj` — different counters have different keys.
-/

namespace LazyTally

/-- Padded digits denote their number. -/
theorem ofDigitChars_paddedDigits (width value : Nat) :
    Nat.ofDigitChars 10 (paddedDigits width value) 0 = value := by
  rw [paddedDigits, List.leftpad, Nat.ofDigitChars_append, Nat.ofDigitChars_replicate_zero,
    Nat.mul_zero, Nat.ofDigitChars_ten_toDigits]

theorem isDigit_of_mem_paddedDigits {width value : Nat} {c : Char}
    (h : c ∈ paddedDigits width value) : c.isDigit := by
  rcases List.mem_append.mp h with hzero | hdigit
  · rw [List.eq_of_mem_replicate hzero]
    rfl
  · exact Nat.isDigit_of_mem_toDigits (by decide) (by decide) hdigit

theorem toNat_byte_of_isDigit {c : Char} (h : c.isDigit) : c.toNat.toUInt8.toNat = c.toNat := by
  have hle : c.toNat ≤ 57 := (Char.isDigit_iff_toNat.mp h).2
  rw [Nat.toUInt8, UInt8.toNat_ofNat']
  omega

/-- The byte of a digit says which digit it is. -/
theorem ofNat_byte_of_isDigit {c : Char} (h : c.isDigit) :
    Char.ofNat c.toNat.toUInt8.toNat = c := by
  rw [toNat_byte_of_isDigit h, Char.ofNat_toNat]

/-- Digits can be read off their bytes. -/
theorem map_ofNat_bytes {digits : List Char} (h : ∀ c ∈ digits, c.isDigit) :
    (digits.map fun c => c.toNat.toUInt8).map (fun byte => Char.ofNat byte.toNat) = digits := by
  rw [List.map_map]
  exact (List.map_congr_left fun c hc => ofNat_byte_of_isDigit (h c hc)).trans (List.map_id digits)

/-- Different counters have different keys. -/
theorem storageKey_inj {index other : UInt64} (h : storageKey index = storageKey other) :
    index = other := by
  unfold storageKey at h
  generalize "counter".toList = word at h
  rw [List.map_append, List.map_append] at h
  have hbytes := List.append_cancel_left h
  have hdigits : paddedDigits 16 index.toNat = paddedDigits 16 other.toNat := by
    rw [← map_ofNat_bytes fun c hc => isDigit_of_mem_paddedDigits hc, hbytes,
      map_ofNat_bytes fun c hc => isDigit_of_mem_paddedDigits hc]
  apply UInt64.toNat_inj.mp
  rw [← ofDigitChars_paddedDigits 16 index.toNat, hdigits, ofDigitChars_paddedDigits]

end LazyTally
