import LazyTally.Bytes
import LazyTally.Random.Uniform

/-!
# Key sources

A key source gives counter indexes below a bound: each drawn at random, or all in
ascending order, or all in one shuffled order that every source shares.  The two
orders start over when they are through.  A source also draws other numbers from
its random words, which moves no order on.

## Main definitions

* `KeyOrder` — the three ways.
* `KeySource`, `KeySource.nextIndex` — a source and its next index.
* `KeySource.draw` — a number of a range, from the random words of the source.
* `storageKey` — the key under which the counter of an index is stored.
-/

namespace LazyTally

/-- How indexes follow each other. -/
inductive KeyOrder where
  /-- Each is drawn at random. -/
  | random
  /-- They ascend. -/
  | sequential
  /-- They follow the shuffled order. -/
  | uniqueRandom
  deriving DecidableEq, Repr

/-- The name of an order in log lines. -/
def KeyOrder.text : KeyOrder → String
  | .random => "Random"
  | .sequential => "Sequential"
  | .uniqueRandom => "UniqueRandom"

/-- A source of indexes. -/
structure KeySource where
  /-- How indexes follow each other. -/
  order : KeyOrder
  /-- The bound of the indexes. -/
  bound : UInt64
  /-- The place in the order that comes next. -/
  place : UInt64
  /-- The index at each place of the shuffled order; empty for other orders. -/
  shuffled : Array UInt64
  /-- The random words of this source. -/
  stream : ChaCha

namespace KeySource

/-- The seed of the shuffled order. -/
def shuffleSeed : UInt64 := 1000

/-- The indexes below a bound in the shuffled order. -/
def shuffledBelow (bound : UInt64) : Array UInt64 :=
  Uniform.shuffle (Array.ofFn fun i : Fin bound.toNat => UInt64.ofNat i.val)
    (ChaCha.ofSeed shuffleSeed)

/-- A source of indexes below `bound`; a bound of zero is taken as one. -/
def start (order : KeyOrder) (bound seed : UInt64) : KeySource :=
  let bound := max bound 1
  { order := order
    bound := bound
    place := 0
    shuffled := if order = .uniqueRandom then shuffledBelow bound else #[]
    stream := ChaCha.ofSeed seed }

/-- A number from `low` to `high`, both included. -/
def draw (low high : UInt64) (source : KeySource) : UInt64 × KeySource :=
  let (value, stream) := Uniform.between low high source.stream
  (value, { source with stream := stream })

/-- The source one place further in its order, and at the start after the end. -/
def advance (source : KeySource) : KeySource :=
  { source with place := (source.place + 1) % source.bound }

/-- The next index. -/
def nextIndex (source : KeySource) : UInt64 × KeySource :=
  match source.order with
  | .random => source.draw 0 (source.bound - 1)
  | .sequential => (source.place, source.advance)
  | .uniqueRandom => (source.shuffled[source.place.toNat]?.getD 0, source.advance)

end KeySource

/-! ### Storage keys -/

/-- A number in decimal digits, with zeros in front up to a width. -/
def paddedDigits (width value : Nat) : List Char :=
  (Nat.toDigits 10 value).leftpad width '0'

/-- The key of a counter: a word, and its index in at least sixteen digits. -/
def storageKey (index : UInt64) : Bytes :=
  ("counter".toList ++ paddedDigits 16 index.toNat).map fun c => c.toNat.toUInt8

end LazyTally
