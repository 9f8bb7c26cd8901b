import Mathlib.Data.UInt
import LazyTally.Workload.Run

/-!
# The range of a key source

Whatever words a stream has, an even draw stays within its range and a shuffle only exchanges
items.  So a key source gives no index beyond its bound: the place in its order stays below the
bound as well, and the shuffled order has an index at each such place.

## Main definitions

* `KeySource.Within` — a source of indexes below a bound, at a place of its order.

## Main results

* `Uniform.between_mem` — an even draw stays within its range.
* `Uniform.perm_shuffle` — a shuffle keeps the items.
* `KeySource.Within.nextIndex_lt`, `KeySource.Within.nextIndex` — the next index is below the
  bound, and so are those that follow.
* `Workload.exists_index_nextAdd` — a worker adds to a counter of the configured ones.
-/

namespace LazyTally

namespace Uniform

theorem word64_lt (stream : ChaCha) : (word64 stream).1 < 1 <<< 64 :=
  (stream.next64).1.toNat_lt

/-- The drawn number is not beyond either end of the range. -/
theorem between_mem {low high : UInt64} (h : low ≤ high) (stream : ChaCha) :
    low ≤ (between low high stream).1 ∧ (between low high stream).1 ≤ high := by
  have hle : low.toNat ≤ high.toNat := h
  have hhigh : high.toNat < 2 ^ 64 := high.toNat_lt
  have hdiff : (high - low).toNat = high.toNat - low.toNat := UInt64.toNat_sub_of_le high low h
  have hsize : (high - low + 1).toNat = (high.toNat - low.toNat + 1) % 2 ^ 64 := by
    rw [UInt64.toNat_add, hdiff]
    rfl
  unfold between
  dsimp only
  split
  · -- the range holds all numbers, so any word is within it
    next hall =>
    rw [hall] at hsize
    have hzero : (0 : UInt64).toNat = 0 := rfl
    have hword := (stream.next64).1.toNat_lt
    rw [UInt64.le_iff_toNat_le, UInt64.le_iff_toNat_le]
    omega
  · -- the offset is below the size of the range, so the sum does not wrap
    next hpart =>
    have hpos : (high - low + 1).toNat ≠ 0 := fun hzero => hpart (UInt64.toNat_inj.mp hzero)
    have hoffset := below_lt word64_lt (Nat.pos_of_ne_zero hpos) stream
    generalize (below 64 word64 (high - low + 1).toNat stream).1 = offset at hoffset ⊢
    have hvalue : (low + UInt64.ofNat offset).toNat = low.toNat + offset := by
      rw [UInt64.toNat_add, UInt64.toNat_ofNat']
      omega
    rw [UInt64.le_iff_toNat_le, UInt64.le_iff_toNat_le, hvalue]
    omega

theorem perm_swapIfInBounds {α : Type} (items : Array α) (place other : Nat) :
    (items.swapIfInBounds place other).Perm items := by
  unfold Array.swapIfInBounds
  split
  · split
    · exact Array.swap_perm _ _
    · exact Array.Perm.refl items
  · exact Array.Perm.refl items

theorem perm_shuffleFrom {α : Type} (count : Nat) (items : Array α) (stream : ChaCha) :
    (shuffleFrom count items stream).Perm items := by
  induction count generalizing items stream with
  | zero => exact Array.Perm.refl items
  | succ last ih =>
    rw [shuffleFrom]
    generalize place (last + 2) stream = drawn
    obtain ⟨place, stream⟩ := drawn
    exact (ih _ _).trans (perm_swapIfInBounds items (last + 1) place)

/-- A shuffle keeps the items. -/
theorem perm_shuffle {α : Type} (items : Array α) (stream : ChaCha) :
    (shuffle items stream).Perm items := perm_shuffleFrom _ items stream

end Uniform

namespace KeySource

/-! ### The shuffled order -/

theorem size_shuffledBelow (bound : UInt64) : (shuffledBelow bound).size = bound.toNat := by
  rw [shuffledBelow, (Uniform.perm_shuffle _ _).size_eq, Array.size_ofFn]

/-- The shuffled order has the indexes below its bound. -/
theorem mem_shuffledBelow {bound index : UInt64} :
    index ∈ shuffledBelow bound ↔ index < bound := by
  rw [shuffledBelow, (Uniform.perm_shuffle _ _).mem_iff, Array.mem_ofFn]
  constructor
  · rintro ⟨i, rfl⟩
    have hlt : i.val < 2 ^ 64 := i.isLt.trans bound.toNat_lt
    rw [UInt64.lt_iff_toNat_lt, UInt64.toNat_ofNat_of_lt' hlt]
    exact i.isLt
  · intro h
    exact ⟨⟨index.toNat, h⟩, UInt64.ofNat_toNat⟩

/-! ### Sources of indexes below a bound -/

/-- A source of indexes below a bound, at a place of its order. -/
structure Within (bound : UInt64) (source : KeySource) : Prop where
  /-- The source has this bound. -/
  bound_eq : source.bound = bound
  /-- There is an index at the place that comes next. -/
  place_lt : source.place < bound
  /-- If the order is shuffled, it is the one that all such sources share. -/
  shuffled_eq : source.order = .uniqueRandom → source.shuffled = shuffledBelow bound

theorem within_start (order : KeyOrder) {bound : UInt64} (h : 0 < bound) (seed : UInt64) :
    (start order bound seed).Within bound := by
  have hmax : max bound 1 = bound := by
    show (if bound ≤ 1 then 1 else bound) = bound
    split
    · next hle =>
      rw [UInt64.lt_iff_toNat_lt] at h
      exact UInt64.le_antisymm h hle
    · rfl
  unfold start
  rw [hmax]
  exact ⟨rfl, h, fun hunique => if_pos hunique⟩

variable {bound : UInt64} {source : KeySource}

theorem Within.pos (h : source.Within bound) : 0 < bound :=
  UInt64.lt_of_le_of_lt UInt64.zero_le h.place_lt

/-- A draw moves no order on. -/
theorem Within.draw (h : source.Within bound) (low high : UInt64) :
    (source.draw low high).2.Within bound := ⟨h.bound_eq, h.place_lt, h.shuffled_eq⟩

theorem Within.advance (h : source.Within bound) : source.advance.Within bound := by
  refine ⟨h.bound_eq, ?_, h.shuffled_eq⟩
  show (source.place + 1) % source.bound < bound
  rw [h.bound_eq]
  exact UInt64.mod_lt _ h.pos

/-- A source goes on within its bound. -/
theorem Within.nextIndex (h : source.Within bound) : source.nextIndex.2.Within bound := by
  unfold KeySource.nextIndex
  split
  · exact h.draw _ _
  · exact h.advance
  · exact h.advance

/-- The next index is below the bound. -/
theorem Within.nextIndex_lt (h : source.Within bound) : source.nextIndex.1 < bound := by
  unfold KeySource.nextIndex
  split
  · -- drawn from zero to the number before the bound
    obtain ⟨-, hle⟩ := Uniform.between_mem (UInt64.zero_le : 0 ≤ source.bound - 1) source.stream
    rw [h.bound_eq, UInt64.le_iff_toNat_le, UInt64.toNat_sub_of_le _ _ h.pos] at hle
    have hpos : 0 < bound.toNat := h.pos
    rw [UInt64.lt_iff_toNat_lt]
    show (Uniform.between 0 (source.bound - 1) source.stream).1.toNat < bound.toNat
    rw [h.bound_eq]
    exact Nat.lt_of_le_of_lt hle (Nat.sub_lt hpos Nat.one_pos)
  · exact h.place_lt
  · -- the place is one of the order, and the order holds only indexes below the bound
    next hunique =>
    have hplace : source.place.toNat < source.shuffled.size := by
      rw [h.shuffled_eq hunique, size_shuffledBelow]
      exact h.place_lt
    have hmem := Array.getElem_mem hplace
    rw [Array.getElem?_eq_getElem hplace]
    generalize source.shuffled[source.place.toNat] = index at hmem ⊢
    rw [h.shuffled_eq hunique] at hmem
    exact mem_shuffledBelow.mp hmem

end KeySource

namespace Workload

/-- The key source of a worker, before its first add. -/
theorem within_keySource {config : Config} (h : 0 < config.keySpace) (worker : Nat) :
    (keySource config worker).Within config.keySpace := KeySource.within_start _ h _

variable {config : Config} {source : KeySource}

/-- A worker adds to a counter of the configured ones. -/
theorem exists_index_nextAdd (h : source.Within config.keySpace) :
    ∃ index < config.keySpace, (nextAdd config source).1.key = storageKey index :=
  ⟨source.nextIndex.1, h.nextIndex_lt, rfl⟩

theorem within_nextAdd (h : source.Within config.keySpace) :
    (nextAdd config source).2.Within config.keySpace := h.nextIndex.draw 1 config.maxDelta

end Workload
end LazyTally
