/-!
# A seeded random word stream

The words of the ChaCha stream cipher with twelve rounds, under a key made from
a 64 bit seed.  Block 0, block 1 and so on give sixteen words each; the stream is
their words in order.

## Main definitions

* `ChaCha.block` — the words of one block.
* `ChaCha` — a stream and how far it has been read.
* `ChaCha.ofSeed` — the stream of a seed.
* `ChaCha.next32`, `ChaCha.next64` — the next word, and the next two as one.
-/

namespace LazyTally

/-- The sixteen words that a block is worked out from. -/
abbrev ChaCha.Words := Vector UInt32 16

namespace ChaCha

/-! ### Blocks -/

/-- A word turned to the left. -/
def turn (word : UInt32) (bits : UInt32) : UInt32 :=
  (word <<< bits) ||| (word >>> (32 - bits))

/-- A quarter of a round, on four of the words. -/
def quarter (w : Words) (a b c d : Fin 16) : Words :=
  let w := w.set a (w[a] + w[b])
  let w := w.set d (turn (w[d] ^^^ w[a]) 16)
  let w := w.set c (w[c] + w[d])
  let w := w.set b (turn (w[b] ^^^ w[c]) 12)
  let w := w.set a (w[a] + w[b])
  let w := w.set d (turn (w[d] ^^^ w[a]) 8)
  let w := w.set c (w[c] + w[d])
  w.set b (turn (w[b] ^^^ w[c]) 7)

/-- Two rounds: the columns of the four by four square of words, then its
diagonals. -/
def doubleRound (w : Words) : Words :=
  let w := quarter w 0 4 8 12
  let w := quarter w 1 5 9 13
  let w := quarter w 2 6 10 14
  let w := quarter w 3 7 11 15
  let w := quarter w 0 5 10 15
  let w := quarter w 1 6 11 12
  let w := quarter w 2 7 8 13
  quarter w 3 4 9 14

/-- The number of double rounds. -/
def doubleRounds : Nat := 6

/-- The words before the rounds: four constants that spell "expand 32-byte k", the
key, the number of the block and a zero stream number. -/
def start (key : Vector UInt32 8) (number : UInt64) : Words :=
  #v[0x61707865, 0x3320646e, 0x79622d32, 0x6b206574,
    key[0], key[1], key[2], key[3], key[4], key[5], key[6], key[7],
    number.toUInt32, (number >>> 32).toUInt32, 0, 0]

/-- The words of a block: those before the rounds plus those after them. -/
def block (key : Vector UInt32 8) (number : UInt64) : Words :=
  let before := start key number
  let after := doubleRounds.repeat doubleRound before
  before.zipWith (· + ·) after

end ChaCha

/-! ### The stream -/

/-- A stream and how far it has been read. -/
structure ChaCha where
  /-- The key of the stream. -/
  key : Vector UInt32 8
  /-- The number of the next block. -/
  number : UInt64
  /-- The words of earlier blocks that are still to be read. -/
  pending : List UInt32

namespace ChaCha

/-- One step of the sequence that key words are made from. -/
def advanceSeed (seed : UInt64) : UInt64 := seed * 6364136223846793005 + 11634580027462260723

/-- The key word of a step: bits of the step folded together and turned by its top
five bits. -/
def keyWord (seed : UInt64) : UInt32 :=
  let folded := (((seed >>> 18) ^^^ seed) >>> 27).toUInt32
  let amount := (seed >>> 59).toUInt32
  (folded >>> amount) ||| (folded <<< ((32 - amount) % 32))

/-- The step after `count` steps. -/
def seedAfter (seed : UInt64) (count : Nat) : UInt64 := count.repeat advanceSeed seed

/-- The stream of a seed. -/
def ofSeed (seed : UInt64) : ChaCha where
  key := Vector.ofFn fun i => keyWord (seedAfter seed (i.val + 1))
  number := 0
  pending := []

/-- The next word of the stream. -/
def next32 (stream : ChaCha) : UInt32 × ChaCha :=
  match stream.pending with
  | word :: rest => (word, { stream with pending := rest })
  | [] =>
      let words := block stream.key stream.number
      (words[0], { stream with number := stream.number + 1, pending := words.toList.tail })

/-- The next two words of the stream as one, the first being the low half. -/
def next64 (stream : ChaCha) : UInt64 × ChaCha :=
  let (low, stream) := stream.next32
  let (high, stream) := stream.next32
  (low.toUInt64 ||| (high.toUInt64 <<< 32), stream)

end ChaCha
end LazyTally
