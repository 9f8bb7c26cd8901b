import LazyTally.Bytes

/-!
# Maps from keys, in key order

A `KeyMap` is an association list that its own operations keep strictly
ascending in the byte order of its keys.  The order is visible from outside:
dumps, records and reports list their entries in it.

## Main definitions

* `KeyMap.find?` — the entry of a key.
* `KeyMap.alter` — replaces the entry of a key, or puts a new one in its place
  in the order; `KeyMap.insert` is the case where the old entry does not matter.
* `Bytes.sortDistinct` — the distinct keys of a list, ascending.

## Main results

* `KeyMap.find?_alter` — `alter` changes the entry of its own key and no other.
* `KeyMap.ascending_alter` — `alter` keeps the order of the keys.
* `KeyMap.find?_eq_some_iff` — what is found is what stands in an ascending map.
* `KeyMap.find?_map`, `KeyMap.find?_filter` — what is found after a change of all entries.
* `Bytes.mem_sortDistinct`, `Bytes.pairwise_sortDistinct` — sorting keeps the keys
  and puts them in order.
-/

namespace LazyTally

/-- An association list, ascending in its keys. -/
abbrev KeyMap (α : Type) := List (Bytes × α)

namespace KeyMap

variable {α : Type}

/-- The entry of `key`. -/
def find? : KeyMap α → Bytes → Option α
  | [], _ => none
  | (k, a) :: rest, key =>
      match Bytes.order key k with
      | .lt => none
      | .eq => some a
      | .gt => find? rest key

/-- The keys, in the order of the map. -/
def keys (map : KeyMap α) : List Bytes := map.map Prod.fst

/-- Replaces the entry of `key` by `f` of it.  A key without an entry gets one,
before the first larger key. -/
def alter (f : Option α → α) : KeyMap α → Bytes → KeyMap α
  | [], key => [(key, f none)]
  | (k, a) :: rest, key =>
      match Bytes.order key k with
      | .lt => (key, f none) :: (k, a) :: rest
      | .eq => (k, f (some a)) :: rest
      | .gt => (k, a) :: alter f rest key

/-- The map in which the entry of `key` is `a`. -/
def insert (map : KeyMap α) (key : Bytes) (a : α) : KeyMap α :=
  alter (fun _ => a) map key

/-- The keys are strictly ascending, so that no key has two entries. -/
def Ascending (map : KeyMap α) : Prop := map.Pairwise fun a b => a.1 < b.1

/-! ### The entries after a change -/

@[simp] theorem find?_nil (key : Bytes) : find? ([] : KeyMap α) key = none := rfl

/-- A key before all keys of a map has no entry. -/
theorem find?_eq_none_of_lt {map : KeyMap α} {key : Bytes} (h : ∀ entry ∈ map, key < entry.1) :
    map.find? key = none := by
  cases map with
  | nil => rfl
  | cons entry rest =>
    rw [find?, Bytes.order_eq_lt.mpr (h entry List.mem_cons_self)]

/-- The first entry of a map is that of its key, and all others follow it. -/
theorem find?_cons {entry : Bytes × α} {rest : KeyMap α} (h : Ascending (entry :: rest))
    (key : Bytes) :
    KeyMap.find? (entry :: rest) key = if entry.1 = key then some entry.2 else find? rest key := by
  have hhead := (List.pairwise_cons.mp h).1
  rw [find?]
  split
  · next hlt =>
    have hlt := Bytes.order_eq_lt.mp hlt
    rw [if_neg fun heq : entry.1 = key => List.lt_irrefl key (heq ▸ hlt)]
    exact (find?_eq_none_of_lt fun e he => List.lt_trans hlt (hhead e he)).symm
  · next heq => rw [if_pos (Bytes.order_eq_eq.mp heq).symm]
  · next hgt =>
    have hlt := Bytes.order_eq_gt.mp hgt
    rw [if_neg fun heq : entry.1 = key => List.lt_irrefl key (heq ▸ hlt)]

/-- The keys after a change are the keys before it and the changed key. -/
theorem mem_keys_alter {f : Option α → α} {map : KeyMap α} {key k : Bytes} :
    k ∈ (alter f map key).keys ↔ k = key ∨ k ∈ map.keys := by
  induction map with
  | nil => simp [alter, keys]
  | cons entry rest ih =>
    simp only [keys] at ih
    simp only [alter, keys]
    split
    · simp
    · next heq => simp [Bytes.order_eq_eq.mp heq]
    · rw [List.map_cons, List.mem_cons, ih, List.map_cons, List.mem_cons]
      exact or_left_comm

/-- A change keeps the order of the keys. -/
theorem ascending_alter {f : Option α → α} {map : KeyMap α} (h : Ascending map) (key : Bytes) :
    Ascending (alter f map key) := by
  unfold Ascending at h ⊢
  induction map with
  | nil => exact List.pairwise_singleton _ _
  | cons entry rest ih =>
    obtain ⟨hhead, htail⟩ := List.pairwise_cons.mp h
    simp only [alter]
    split
    · next hlt =>
      refine List.pairwise_cons.mpr ⟨fun e he => ?_, h⟩
      rcases List.mem_cons.mp he with rfl | he
      · exact Bytes.order_eq_lt.mp hlt
      · exact List.lt_trans (Bytes.order_eq_lt.mp hlt) (hhead e he)
    · exact List.pairwise_cons.mpr ⟨hhead, htail⟩
    · next hgt =>
      refine List.pairwise_cons.mpr ⟨fun e he => ?_, ih htail⟩
      -- every later key is an old one or the changed key
      have hmem : e.1 ∈ (alter f rest key).keys := List.mem_map_of_mem he
      rcases mem_keys_alter.mp hmem with heq | hold
      · exact heq ▸ Bytes.order_eq_gt.mp hgt
      · obtain ⟨old, hold, heq⟩ := List.mem_map.mp hold
        exact heq ▸ hhead old hold

/-- A change replaces the entry of its own key and no other. -/
theorem find?_alter {f : Option α → α} {map : KeyMap α} (h : Ascending map) (key k : Bytes) :
    (alter f map key).find? k = if key = k then some (f (map.find? key)) else map.find? k := by
  have hafter := ascending_alter (f := f) h key
  induction map with
  | nil => rw [alter, find?_cons hafter]; rfl
  | cons entry rest ih =>
    have htail := (List.pairwise_cons.mp h).2
    simp only [alter] at hafter ⊢
    split at hafter
    · next hlt =>
      -- the key is before all others, so it had no entry
      have hnone : KeyMap.find? (entry :: rest) key = none := by rw [find?, hlt]
      rw [find?_cons hafter, hnone]
    · next heq =>
      obtain rfl := Bytes.order_eq_eq.mp heq
      rw [find?_cons hafter, find?_cons h, find?_cons h, if_pos rfl]
      split <;> rfl
    · next hgt =>
      have hlt := Bytes.order_eq_gt.mp hgt
      have hne : entry.1 ≠ key := fun heq => List.lt_irrefl key (heq ▸ hlt)
      rw [find?_cons hafter, ih htail (List.pairwise_cons.mp hafter).2, find?_cons h,
        find?_cons h, if_neg hne]
      split
      · next hk => rw [if_neg fun heq => hne (hk.trans heq.symm)]
      · rfl

theorem find?_insert {map : KeyMap α} (h : Ascending map) (key : Bytes) (a : α) (k : Bytes) :
    (map.insert key a).find? k = if key = k then some a else map.find? k :=
  find?_alter h key k

theorem ascending_insert {map : KeyMap α} (h : Ascending map) (key : Bytes) (a : α) :
    Ascending (map.insert key a) := ascending_alter h key

/-! ### What is found and what stands in the map -/

/-- A found entry stands in the map under its key. -/
theorem mem_of_find? {map : KeyMap α} {key : Bytes} {a : α} (h : map.find? key = some a) :
    (key, a) ∈ map := by
  induction map with
  | nil => exact nomatch h
  | cons entry rest ih =>
    rw [find?] at h
    split at h
    · exact nomatch h
    · next heq =>
      obtain rfl := Bytes.order_eq_eq.mp heq
      obtain rfl := Option.some.inj h
      exact List.mem_cons_self
    · exact List.mem_cons_of_mem _ (ih h)

/-- An entry of an ascending map is the one that is found under its key. -/
theorem find?_eq_some_iff {map : KeyMap α} (h : Ascending map) {key : Bytes} {a : α} :
    map.find? key = some a ↔ (key, a) ∈ map := by
  refine ⟨mem_of_find?, fun hmem => ?_⟩
  induction map with
  | nil => exact nomatch hmem
  | cons entry rest ih =>
    obtain ⟨hhead, htail⟩ := List.pairwise_cons.mp h
    rw [find?_cons h]
    rcases List.mem_cons.mp hmem with rfl | hmem
    · rw [if_pos rfl]
    · have hlt : entry.1 < key := hhead (key, a) hmem
      have hne : entry.1 ≠ key := fun heq => List.lt_irrefl key (heq ▸ hlt)
      rw [if_neg hne, ih htail hmem]

/-- The keys of an ascending map are those under which something is found. -/
theorem mem_keys_iff {map : KeyMap α} (h : Ascending map) {key : Bytes} :
    key ∈ map.keys ↔ ∃ a, map.find? key = some a := by
  constructor
  · intro hkey
    obtain ⟨⟨_, a⟩, hmem, rfl⟩ := List.mem_map.mp hkey
    exact ⟨a, (find?_eq_some_iff h).mpr hmem⟩
  · rintro ⟨a, ha⟩
    exact List.mem_map_of_mem (mem_of_find? ha)

/-! ### Maps made from maps -/

theorem ascending_map {β : Type} (f : Bytes → α → β) {map : KeyMap α} (h : Ascending map) :
    Ascending (map.map fun entry => (entry.1, f entry.1 entry.2)) := List.pairwise_map.mpr h

theorem find?_map {β : Type} (f : Bytes → α → β) (map : KeyMap α) (key : Bytes) :
    KeyMap.find? (map.map fun entry => (entry.1, f entry.1 entry.2)) key =
      (map.find? key).map (f key) := by
  induction map with
  | nil => rfl
  | cons entry rest ih =>
    rw [List.map_cons, find?, find?]
    split
    · rfl
    · next heq => rw [Bytes.order_eq_eq.mp heq]; rfl
    · exact ih

theorem ascending_filter (keep : Bytes × α → Bool) {map : KeyMap α} (h : Ascending map) :
    Ascending (map.filter keep) := List.Pairwise.filter keep h

theorem find?_filter (keep : Bytes × α → Bool) {map : KeyMap α} (h : Ascending map)
    (key : Bytes) :
    KeyMap.find? (map.filter keep) key = (map.find? key).filter fun a => keep (key, a) := by
  ext a
  rw [find?_eq_some_iff (ascending_filter keep h), List.mem_filter, ← find?_eq_some_iff h,
    Option.filter_eq_some_iff]

theorem ascending_map_keys (f : Bytes → α) {keys : List Bytes} (h : keys.Pairwise (· < ·)) :
    Ascending (keys.map fun key => (key, f key)) := List.pairwise_map.mpr h

/-- In a map made from keys, each of them has its own entry. -/
theorem find?_map_keys (f : Bytes → α) {keys : List Bytes} (h : keys.Pairwise (· < ·))
    (key : Bytes) :
    KeyMap.find? (keys.map fun k => (k, f k)) key = if key ∈ keys then some (f key) else none := by
  ext a
  rw [find?_eq_some_iff (ascending_map_keys f h), List.mem_map]
  constructor
  · rintro ⟨k, hk, heq⟩
    obtain ⟨rfl, rfl⟩ := Prod.mk.inj heq
    exact if_pos hk
  · intro ha
    split at ha
    · next hkey => exact ⟨key, hkey, by rw [Option.some.inj ha]⟩
    · exact nomatch ha

end KeyMap

/-! ### Key sets -/

/-- Puts a key in its place of an ascending list, unless it is there. -/
def Bytes.insertDistinct (key : Bytes) : List Bytes → List Bytes
  | [] => [key]
  | k :: rest =>
      match order key k with
      | .lt => key :: k :: rest
      | .eq => k :: rest
      | .gt => k :: insertDistinct key rest

/-- The distinct keys of a list, in ascending order. -/
def Bytes.sortDistinct (keys : List Bytes) : List Bytes := keys.foldr insertDistinct []

theorem Bytes.mem_insertDistinct {key k : Bytes} {keys : List Bytes} :
    k ∈ insertDistinct key keys ↔ k = key ∨ k ∈ keys := by
  induction keys with
  | nil => simp [insertDistinct]
  | cons first rest ih =>
    simp only [insertDistinct]
    split
    · exact List.mem_cons
    · next heq => simp [order_eq_eq.mp heq]
    · rw [List.mem_cons, ih, List.mem_cons]
      exact or_left_comm

/-- Sorting keeps the keys. -/
theorem Bytes.mem_sortDistinct {k : Bytes} {keys : List Bytes} :
    k ∈ sortDistinct keys ↔ k ∈ keys := by
  induction keys with
  | nil => exact Iff.rfl
  | cons first rest ih =>
    rw [sortDistinct, List.foldr_cons, mem_insertDistinct, List.mem_cons]
    exact or_congr_right ih

theorem Bytes.pairwise_insertDistinct {keys : List Bytes} (h : keys.Pairwise (· < ·))
    (key : Bytes) : (insertDistinct key keys).Pairwise (· < ·) := by
  induction keys with
  | nil => exact List.pairwise_singleton _ _
  | cons first rest ih =>
    obtain ⟨hhead, htail⟩ := List.pairwise_cons.mp h
    simp only [insertDistinct]
    split
    · next hlt =>
      refine List.pairwise_cons.mpr ⟨fun k hk => ?_, h⟩
      rcases List.mem_cons.mp hk with rfl | hk
      · exact order_eq_lt.mp hlt
      · exact List.lt_trans (order_eq_lt.mp hlt) (hhead k hk)
    · exact h
    · next hgt =>
      refine List.pairwise_cons.mpr ⟨fun k hk => ?_, ih htail⟩
      rcases mem_insertDistinct.mp hk with rfl | hk
      · exact order_eq_gt.mp hgt
      · exact hhead k hk

/-- Sorted keys are strictly ascending. -/
theorem Bytes.pairwise_sortDistinct (keys : List Bytes) :
    (sortDistinct keys).Pairwise (· < ·) := by
  induction keys with
  | nil => exact List.Pairwise.nil
  | cons first rest ih => exact pairwise_insertDistinct ih first

end LazyTally
