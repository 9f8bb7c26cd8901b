import LazyTally.Bytes

/-!
# Stored counters

A counter is an unsigned 64 bit number.  It is stored as eight bytes, and a byte
string of any other length is no counter.  Stores follow the byte order of the
machine; here it is fixed to that with the least significant byte first.

## Main definitions

* `Counter.encode`, `Counter.decode?` — the stored form and its reading.

## Main results

* `Counter.decode?_encode` — what was encoded is read back.
* `Counter.encode_of_decode?` — what is read is the stored form of its value.
-/

namespace LazyTally
namespace Counter

/-- The number of bytes of a stored counter. -/
def size : Nat := 8

/-- The `count` low bytes of a number, least significant first. -/
def lowBytes : (count : Nat) → (value : Nat) → Bytes
  | 0, _ => []
  | count + 1, value => UInt8.ofNat value :: lowBytes count (value / 256)

/-- The number that a byte string denotes, least significant byte first. -/
def valueOf : Bytes → Nat
  | [] => 0
  | byte :: rest => byte.toNat + 256 * valueOf rest

/-- The stored form of a counter, on a machine whose byte order is least significant
byte first. -/
def encode (value : UInt64) : Bytes := lowBytes size value.toNat

/-- Reads a stored counter; a byte string of another length is refused. -/
def decode? (bytes : Bytes) : Option UInt64 :=
  if bytes.length = size then some (UInt64.ofNat (valueOf bytes)) else none

/-! ### The two directions -/

/-- How many byte strings of a length there are. -/
def capacity : (count : Nat) → Nat
  | 0 => 1
  | count + 1 => 256 * capacity count

theorem capacity_pos (count : Nat) : 0 < capacity count := by
  induction count with
  | zero => exact Nat.one_pos
  | succ count ih =>
    rw [capacity]
    omega

theorem length_lowBytes (count value : Nat) : (lowBytes count value).length = count := by
  induction count generalizing value with
  | zero => rfl
  | succ count ih => rw [lowBytes, List.length_cons, ih]

theorem length_encode (value : UInt64) : (encode value).length = size := length_lowBytes _ _

/-- The low bytes denote the number, up to a multiple of what they can hold. -/
theorem valueOf_lowBytes (count value : Nat) :
    valueOf (lowBytes count value) = value % capacity count := by
  induction count generalizing value with
  | zero => exact (Nat.mod_one value).symm
  | succ count ih =>
    rw [lowBytes, valueOf, ih, capacity, Nat.mod_mul, UInt8.toNat_ofNat']

/-- A byte string is the low bytes of its value. -/
theorem lowBytes_valueOf (bytes : Bytes) : lowBytes bytes.length (valueOf bytes) = bytes := by
  induction bytes with
  | nil => rfl
  | cons byte rest ih =>
    have hlt : byte.toNat < 256 := byte.toNat_lt
    have hdiv : (byte.toNat + 256 * valueOf rest) / 256 = valueOf rest := by omega
    have hlow : UInt8.ofNat (byte.toNat + 256 * valueOf rest) = byte := by
      apply UInt8.toNat_inj.mp
      rw [UInt8.toNat_ofNat']
      omega
    rw [List.length_cons, lowBytes, valueOf, hlow, hdiv, ih]

/-- The value of a byte string fits into its bytes. -/
theorem valueOf_lt (bytes : Bytes) : valueOf bytes < capacity bytes.length := by
  have h := valueOf_lowBytes bytes.length (valueOf bytes)
  rw [lowBytes_valueOf] at h
  rw [h]
  exact Nat.mod_lt _ (capacity_pos _)

/-- What was encoded is read back. -/
theorem decode?_encode (value : UInt64) : decode? (encode value) = some value := by
  have hlt : value.toNat < capacity size := value.toNat_lt
  rw [decode?, if_pos (length_encode value), encode, valueOf_lowBytes, Nat.mod_eq_of_lt hlt,
    UInt64.ofNat_toNat]

/-- What is read is the stored form of its value. -/
theorem encode_of_decode? {bytes : Bytes} {value : UInt64} (h : decode? bytes = some value) :
    encode value = bytes := by
  unfold decode? at h
  split at h
  · next hsize =>
    obtain rfl := Option.some.inj h
    have hlt : valueOf bytes < 2 ^ 64 := by
      have := valueOf_lt bytes
      rwa [hsize] at this
    rw [encode, UInt64.toNat_ofNat_of_lt' hlt, ← hsize, lowBytes_valueOf]
  · exact nomatch h

end Counter
end LazyTally
