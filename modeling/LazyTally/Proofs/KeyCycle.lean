import LazyTally.Proofs.KeyRange

/-!
# The order of a key source

A source that leaves nothing to chance goes round: it gives the indexes of its order one after the
other, and starts over after the last.  All that it has to know is how many indexes it gave, which
is what its place says up to whole rounds.  Its random words are for others to draw from, and
neither the seed nor what is drawn has a part in the order.

## Main definitions

* `KeySource.Use`, `KeySource.after`, `KeySource.indexes` — what is done with a source, what that
  leaves, and the indexes that it gives.
* `KeySource.cycle`, `KeySource.indexAt` — one round, and the index after so many others.
* `KeySource.Given` — a source that has given so many indexes.

## Main results

* `KeySource.Given.nextIndex`, `KeySource.Given.nextIndex_eq` — the next index, and the source
  after it.
* `KeySource.Given.after`, `KeySource.Given.indexes_eq` — the same for any uses of a source.
* `KeySource.perm_cycle` — a round has each index below the bound once.
* `KeySource.indexes_cover_range` — what a source gives, whatever is drawn in between.
-/

namespace LazyTally
namespace KeySource

/-! ### Uses of a source -/

/-- What can be done with a source. -/
inductive Use where
  /-- Its next index is taken. -/
  | next
  /-- Random words are drawn in any way; this is what the drawing leaves of them. -/
  | draw (rest : ChaCha → ChaCha)

/-- The source after a use. -/
def Use.after : Use → KeySource → KeySource
  | next, source => source.nextIndex.2
  | draw rest, source => { source with stream := rest source.stream }

/-- The source after uses, one after the other. -/
def after (source : KeySource) (uses : List Use) : KeySource :=
  uses.foldl (fun source use => use.after source) source

/-- The indexes that a source gives in its uses. -/
def indexes (source : KeySource) : List Use → List UInt64
  | [] => []
  | .next :: uses => source.nextIndex.1 :: source.nextIndex.2.indexes uses
  | .draw rest :: uses => ((Use.draw rest).after source).indexes uses

/-- How many indexes are taken. -/
def taken : List Use → Nat
  | [] => 0
  | .next :: uses => taken uses + 1
  | .draw _ :: uses => taken uses

theorem length_indexes (source : KeySource) (uses : List Use) :
    (source.indexes uses).length = taken uses := by
  induction uses generalizing source with
  | nil => rfl
  | cons use uses ih =>
    cases use with
    | next => exact congrArg (· + 1) (ih _)
    | draw rest => exact ih _

/-! ### One round -/

/-- The indexes below a bound, in ascending order. -/
def ascendingBelow (bound : UInt64) : List UInt64 := (List.range bound.toNat).map UInt64.ofNat

/-- The indexes of an order that leaves nothing to chance, once through. -/
def cycle (order : KeyOrder) (bound : UInt64) : List UInt64 :=
  if order = .uniqueRandom then (shuffledBelow bound).toList else ascendingBelow bound

theorem cycle_uniqueRandom (bound : UInt64) :
    cycle .uniqueRandom bound = (shuffledBelow bound).toList := rfl

theorem cycle_sequential (bound : UInt64) : cycle .sequential bound = ascendingBelow bound := rfl

theorem nodup_ascendingBelow (bound : UInt64) : (ascendingBelow bound).Nodup := by
  refine List.Nodup.map_on ?_ List.nodup_range
  intro i hi j hj heq
  have hlt : ∀ k ∈ List.range bound.toNat, (UInt64.ofNat k).toNat = k := fun k hk =>
    UInt64.toNat_ofNat_of_lt' ((List.mem_range.mp hk).trans bound.toNat_lt)
  rw [← hlt i hi, heq, hlt j hj]

theorem perm_shuffledBelow (bound : UInt64) :
    (shuffledBelow bound).toList.Perm (ascendingBelow bound) := by
  have hlisted : (Array.ofFn fun i : Fin bound.toNat => UInt64.ofNat i.val).toList =
      ascendingBelow bound := by
    rw [Array.toList_ofFn, ascendingBelow, ← List.map_coe_finRange_eq_range, List.map_map,
      List.ofFn_eq_map]
    rfl
  rw [← hlisted]
  exact (Uniform.perm_shuffle _ _).toList

/-- A round has each index below the bound once. -/
theorem perm_cycle (order : KeyOrder) (bound : UInt64) :
    (cycle order bound).Perm (ascendingBelow bound) := by
  unfold cycle
  split
  · exact perm_shuffledBelow bound
  · exact List.Perm.refl _

theorem nodup_cycle (order : KeyOrder) (bound : UInt64) : (cycle order bound).Nodup :=
  (perm_cycle order bound).nodup_iff.mpr (nodup_ascendingBelow bound)

theorem length_cycle (order : KeyOrder) (bound : UInt64) :
    (cycle order bound).length = bound.toNat := by
  rw [(perm_cycle order bound).length_eq, ascendingBelow, List.length_map, List.length_range]

/-- The index that follows `count` others. -/
def indexAt (order : KeyOrder) (bound : UInt64) (count : Nat) : UInt64 :=
  (cycle order bound).getD (count % bound.toNat) 0

theorem indexAt_add_bound (order : KeyOrder) (bound : UInt64) (count : Nat) :
    indexAt order bound (count + bound.toNat) = indexAt order bound count := by
  rw [indexAt, Nat.add_mod_right, ← indexAt]

theorem indexAt_sequential {bound : UInt64} (h : 0 < bound) (count : Nat) :
    indexAt .sequential bound count = UInt64.ofNat (count % bound.toNat) := by
  have hlt : count % bound.toNat < bound.toNat := Nat.mod_lt _ h
  rw [indexAt, cycle_sequential, ascendingBelow, List.getD_eq_getElem?_getD, List.getElem?_map,
    List.getElem?_range hlt]
  rfl

/-- The indexes of a round follow each other in its order. -/
theorem map_indexAt_round (order : KeyOrder) (bound : UInt64) (round : Nat) :
    (List.range' (round * bound.toNat) bound.toNat).map (indexAt order bound) =
      cycle order bound := by
  apply List.ext_getElem
  · rw [List.length_map, List.length_range', length_cycle]
  · intro i hi hround
    rw [List.length_map, List.length_range'] at hi
    rw [List.getElem_map, List.getElem_range', Nat.one_mul, indexAt, Nat.mul_comm, Nat.mul_add_mod,
      Nat.mod_eq_of_lt hi, List.getD_eq_getElem?_getD, List.getElem?_eq_getElem hround,
      Option.getD_some]

/-! ### Sources that go round -/

/-- The source of an order and a bound that has given so many indexes. -/
structure Given (order : KeyOrder) (bound : UInt64) (count : Nat) (source : KeySource) : Prop
    extends source.Within bound where
  /-- The source has this order. -/
  order_eq : source.order = order
  /-- The place says how many indexes were given, up to whole rounds. -/
  place_eq : order ≠ .random → source.place.toNat = count % bound.toNat

theorem given_start (order : KeyOrder) {bound : UInt64} (h : 0 < bound) (seed : UInt64) :
    (start order bound seed).Given order bound 0 :=
  ⟨within_start order h seed, rfl, fun _ => (Nat.zero_mod _).symm⟩

variable {order : KeyOrder} {bound : UInt64} {count : Nat} {source : KeySource}

/-- The place before the end of a round can be counted on. -/
theorem Within.place_add_one_lt (h : source.Within bound) :
    source.place.toNat + 1 < UInt64.size :=
  Nat.lt_of_le_of_lt (Nat.succ_le_of_lt h.place_lt) bound.toNat_lt

/-- There is an index at the place of a source with a shuffled order. -/
theorem Within.place_lt_size (h : source.Within bound) (hunique : source.order = .uniqueRandom) :
    source.place.toNat < source.shuffled.size := by
  rw [h.shuffled_eq hunique, size_shuffledBelow]
  exact h.place_lt

/-- What is drawn has no part in the order. -/
theorem Given.draw (h : source.Given order bound count) (rest : ChaCha → ChaCha) :
    ((Use.draw rest).after source).Given order bound count :=
  ⟨⟨h.bound_eq, h.place_lt, h.shuffled_eq⟩, h.order_eq, h.place_eq⟩

/-- So it is if a number is drawn from a range. -/
theorem Given.drawn (h : source.Given order bound count) (low high : UInt64) :
    (source.draw low high).2.Given order bound count :=
  h.draw fun stream => (Uniform.between low high stream).2

theorem Given.advance (h : source.Given order bound count) :
    source.advance.Given order bound (count + 1) := by
  refine ⟨h.toWithin.advance, h.order_eq, ?_⟩
  intro hchance
  have hnext : (source.place + 1).toNat = source.place.toNat + 1 := by
    rw [UInt64.toNat_add]
    exact Nat.mod_eq_of_lt h.place_add_one_lt
  show ((source.place + 1) % source.bound).toNat = _
  rw [h.bound_eq, UInt64.toNat_mod, hnext, h.place_eq hchance, Nat.mod_add_mod]

/-- After the next index one more is given. -/
theorem Given.nextIndex (h : source.Given order bound count) :
    source.nextIndex.2.Given order bound (count + 1) := by
  unfold KeySource.nextIndex
  split
  · next hrandom =>
    -- a drawn index moves no order on, and there is none
    refine ⟨h.toWithin.draw _ _, h.order_eq, ?_⟩
    intro hchance
    exact absurd (h.order_eq.symm.trans hrandom) hchance
  · exact h.advance
  · exact h.advance

/-- Where nothing is left to chance, the next index is the one that the order says. -/
theorem Given.nextIndex_eq (h : source.Given order bound count) (hchance : order ≠ .random) :
    source.nextIndex.1 = indexAt order bound count := by
  unfold KeySource.nextIndex
  split
  · next hrandom => exact absurd (h.order_eq.symm.trans hrandom) hchance
  · next hsequential =>
    obtain rfl : .sequential = order := hsequential.symm.trans h.order_eq
    rw [indexAt_sequential h.pos, ← h.place_eq hchance]
    exact UInt64.ofNat_toNat.symm
  · next hunique =>
    have hshared := h.shuffled_eq hunique
    obtain rfl : .uniqueRandom = order := hunique.symm.trans h.order_eq
    rw [indexAt, cycle_uniqueRandom, ← h.place_eq hchance, hshared, List.getD_eq_getElem?_getD,
      Array.getElem?_toList]

/-- A use of a source takes an index or none. -/
theorem Given.use (h : source.Given order bound count) (use : Use) :
    (use.after source).Given order bound (count + taken [use]) := by
  cases use with
  | next => exact h.nextIndex
  | draw rest => exact h.draw rest

/-- So do all its uses, one after the other. -/
theorem Given.after (h : source.Given order bound count) (uses : List Use) :
    (source.after uses).Given order bound (count + taken uses) := by
  induction uses generalizing source count with
  | nil => exact h
  | cons use uses ih =>
    have hrest := ih (h.use use)
    have htaken : taken [use] + taken uses = taken (use :: uses) := by
      cases use with
      | next => exact Nat.add_comm 1 (taken uses)
      | draw rest => exact Nat.zero_add (taken uses)
    rw [Nat.add_assoc, htaken] at hrest
    exact hrest

/-- Every index is below the bound. -/
theorem Given.indexes_lt (h : source.Given order bound count) (uses : List Use) :
    ∀ index ∈ source.indexes uses, index < bound := by
  induction uses generalizing source count with
  | nil => exact nofun
  | cons use uses ih =>
    cases use with
    | next => exact List.forall_mem_cons.mpr ⟨h.nextIndex_lt, ih h.nextIndex⟩
    | draw rest => exact ih (h.draw rest)

/-- Where nothing is left to chance, the indexes are those that the order says, whatever is drawn
in between. -/
theorem Given.indexes_eq (h : source.Given order bound count) (hchance : order ≠ .random)
    (uses : List Use) :
    source.indexes uses = (List.range' count (taken uses)).map (indexAt order bound) := by
  induction uses generalizing source count with
  | nil => rfl
  | cons use uses ih =>
    cases use with
    | next =>
      rw [indexes, taken, List.range'_succ, List.map_cons, ← ih h.nextIndex,
        h.nextIndex_eq hchance]
    | draw rest => exact ih (h.draw rest)

/-! ### What a source gives -/

theorem max_one_pos (bound : UInt64) : 0 < max bound 1 := by
  show 0 < if bound ≤ 1 then 1 else bound
  split
  · decide
  · next h => exact UInt64.lt_trans (by decide) (UInt64.not_le.mp h)

/-- A bound of zero is taken as one. -/
theorem start_max (order : KeyOrder) (bound seed : UInt64) :
    start order (max bound 1) seed = start order bound seed := by
  have hmax : max (max bound 1) 1 = max bound 1 := by
    show (if max bound 1 ≤ 1 then 1 else max bound 1) = max bound 1
    split
    · next h => exact UInt64.le_antisymm (max_one_pos bound) h
    · rfl
  unfold start
  rw [hmax]

/-- A source stays within its bound whatever is done with it: no index reaches the bound, nor does
the place, which can be counted on and has an index if the order is shuffled.  A source that
ascends gives the number of the indexes before, up to whole rounds.  A source with the shuffled
order goes round in it: each round has every index below the bound once, and neither the seed nor
what is drawn in between has a part in it. -/
theorem indexes_cover_range (order : KeyOrder) (bound seed : UInt64) (uses : List Use) :
    let size := max bound 1
    let source := start order bound seed
    let reached := source.after uses
    (∀ index ∈ source.indexes uses, index < size) ∧
    (source.indexes uses).length = taken uses ∧
    reached.place < size ∧
    reached.place.toNat + 1 < UInt64.size ∧
    (order = .uniqueRandom → reached.place.toNat < reached.shuffled.size) ∧
    (order = .sequential → source.indexes uses =
      (List.range (taken uses)).map fun i => UInt64.ofNat (i % size.toNat)) ∧
    (order = .uniqueRandom →
      (∀ i, i + size.toNat < taken uses →
        (source.indexes uses)[i + size.toNat]? = (source.indexes uses)[i]?) ∧
      (∀ round, (round + 1) * size.toNat ≤ taken uses →
        (((source.indexes uses).drop (round * size.toNat)).take size.toNat).Perm
          ((List.range size.toNat).map UInt64.ofNat)) ∧
      ∀ (seed' : UInt64) (uses' : List Use), taken uses' = taken uses →
        (start order bound seed').indexes uses' = source.indexes uses) := by
  intro size source reached
  have hpos : 0 < size := max_one_pos bound
  -- a bound of zero counts as one
  have hstart : ∀ seed', (start order bound seed').Given order size 0 := by
    intro seed'
    rw [← start_max]
    exact given_start order hpos seed'
  have hreached := (hstart seed).after uses
  -- without chance an index depends on its place alone, whatever was drawn in between
  have hindexes : order ≠ .random → ∀ seed' uses', (start order bound seed').indexes uses' =
      (List.range (taken uses')).map (indexAt order size) := by
    intro hchance seed' uses'
    rw [(hstart seed').indexes_eq hchance, List.range_eq_range']
  refine ⟨(hstart seed).indexes_lt uses, length_indexes source uses, hreached.place_lt,
    hreached.place_add_one_lt, ?_, ?_, ?_⟩
  · intro hunique
    exact hreached.place_lt_size (hreached.order_eq.trans hunique)
  · intro hsequential
    rw [hindexes (by simp [hsequential]) seed uses]
    refine List.map_congr_left fun i _ => ?_
    rw [hsequential, indexAt_sequential hpos]
  · intro hunique
    have hchance : order ≠ .random := by simp [hunique]
    refine ⟨?_, ?_, ?_⟩
    · -- the order begins again after as many indexes as there are
      intro i hi
      have hlt : i < taken uses := by omega
      rw [hindexes hchance, List.getElem?_map, List.getElem?_map, List.getElem?_range hi,
        List.getElem?_range hlt, Option.map_some, Option.map_some, indexAt_add_bound]
    · -- a round is one stretch of the range, shifted by whole rounds
      intro round hround
      have hrest : size.toNat ≤ taken uses - round * size.toNat := by
        rw [Nat.succ_mul] at hround
        omega
      rw [hindexes hchance, ← List.map_drop, ← List.map_take, List.range_eq_range',
        List.drop_range', Nat.zero_add, Nat.mul_one, List.take_range'_of_length_ge hrest,
        map_indexAt_round]
      exact perm_cycle order size
    · intro seed' uses' htaken
      rw [hindexes hchance, hindexes hchance, htaken]

/-- Two sources with four indexes in the shuffled order, of which one is drawn from.  Both start
over with the fifth index, after each index once, and give the same. -/
theorem indexes_cover_range_four :
    let source := start .uniqueRandom 4 7
    let uses : List Use := [.next, .draw fun stream => stream.next64.2, .next, .next, .next, .next]
    let others : List Use := [.next, .next, .next, .next, .next]
    (∀ index ∈ source.indexes uses, index < 4) ∧
      (source.indexes uses)[4]? = (source.indexes uses)[0]? ∧
      ((source.indexes uses).take 4).Perm [0, 1, 2, 3] ∧
      (start .uniqueRandom 4 99).indexes others = source.indexes uses := by
  intro source uses others
  obtain ⟨hlt, -, -, -, -, -, hunique⟩ := indexes_cover_range .uniqueRandom 4 7 uses
  obtain ⟨hperiod, hround, hsame⟩ := hunique rfl
  exact ⟨hlt, hperiod 0 (by decide), hround 0 (by decide), hsame 99 others rfl⟩

end KeySource
end LazyTally
