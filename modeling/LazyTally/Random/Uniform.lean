import LazyTally.Random.ChaCha

/-!
# Even draws from a range

A word times the size of the range falls into one of that many equal parts of
the product; the high half of the product names the part.  Words for which the
low half is beyond the zone are drawn again, so that every part has the same
number of words.

## Main definitions

* `Uniform.zone` — the largest accepted low half.
* `Uniform.below` — a number below a bound, from any source of words.
* `Uniform.between` — a 64 bit number of a range.
* `Uniform.place` — a place in an array.
* `Uniform.shuffle` — a random order of an array.

## Main results

* `Uniform.below_lt` — the drawn number is below the bound.
-/

namespace LazyTally
namespace Uniform

/-- How often a word is drawn before the lowest number is taken instead.  At least
every other word is accepted, so this is out of reach. -/
def patience : Nat := 4096

/-- The largest accepted low half of a product, for words of `bits` bits: the
largest multiple of the bound by a power of two that fits, less one. -/
def zone (bits bound : Nat) : Nat := (bound <<< (bits - 1 - bound.log2)) - 1

/-- Draws words until one is accepted, and gives the part that it falls into. -/
def belowWithin {γ : Type} (bits : Nat) (next : γ → Nat × γ) (bound : Nat) :
    (patience : Nat) → γ → Nat × γ
  | 0, source => (0, source)
  | patience + 1, source =>
      let (word, source) := next source
      let product := word * bound
      if product % (1 <<< bits) ≤ zone bits bound then (product >>> bits, source)
      else belowWithin bits next bound patience source

/-- A number below `bound`, from words of `bits` bits. -/
def below {γ : Type} (bits : Nat) (next : γ → Nat × γ) (bound : Nat) (source : γ) : Nat × γ :=
  belowWithin bits next bound patience source

/-- The drawn number is below the bound, if the source draws words of `bits` bits. -/
theorem below_lt {γ : Type} {bits : Nat} {next : γ → Nat × γ}
    (hnext : ∀ source, (next source).1 < 1 <<< bits) {bound : Nat} (h : 0 < bound) (source : γ) :
    (below bits next bound source).1 < bound := by
  unfold below
  generalize patience = n
  induction n generalizing source with
  | zero => exact h
  | succ n ih =>
    simp only [belowWithin]
    split
    · have hword := hnext source
      rw [Nat.one_shiftLeft] at hword
      rw [Nat.shiftRight_eq_div_pow]
      exact Nat.div_lt_of_lt_mul (Nat.mul_lt_mul_of_pos_right hword h)
    · exact ih _

/-- The next word of a stream as a number. -/
def word32 (stream : ChaCha) : Nat × ChaCha :=
  let (word, stream) := stream.next32
  (word.toNat, stream)

/-- The next two words of a stream as a number. -/
def word64 (stream : ChaCha) : Nat × ChaCha :=
  let (word, stream) := stream.next64
  (word.toNat, stream)

/-- A number from `low` to `high`, both included.  If the range holds all numbers,
every word is one of them. -/
def between (low high : UInt64) (stream : ChaCha) : UInt64 × ChaCha :=
  let size := high - low + 1
  if size = 0 then stream.next64
  else
    let (offset, stream) := below 64 word64 size.toNat stream
    (low + UInt64.ofNat offset, stream)

/-- A place among `count` items.  Only a count that is no 32 bit number takes words of
64 bits. -/
def place (count : Nat) (stream : ChaCha) : Nat × ChaCha :=
  if count < 1 <<< 32 then below 32 word32 count stream else below 64 word64 count stream

/-- Exchanges each of the last `count` places, from the back, with a random one that
is not behind it. -/
def shuffleFrom {α : Type} : (count : Nat) → Array α → ChaCha → Array α
  | 0, items, _ => items
  | last + 1, items, stream =>
      let (other, stream) := place (last + 2) stream
      shuffleFrom last (items.swapIfInBounds (last + 1) other) stream

/-- The items in a random order. -/
def shuffle {α : Type} (items : Array α) (stream : ChaCha) : Array α :=
  shuffleFrom (items.size - 1) items stream

end Uniform
end LazyTally
