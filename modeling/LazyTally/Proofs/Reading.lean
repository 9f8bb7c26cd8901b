import LazyTally.Store.Layers

/-!
# Readings of a history

The records of a key, oldest first, can be read in more than one way: as the value
that an operator would compute, as the number of operands that wait, or as both.
A *reading* says what a known value looks like and what an operand does to what was
seen before.  Everything that an engine may do to a history is judged by whether a
reading can tell.

## Main definitions

* `Reading` — what a value looks like, and what an operand does to it.
* `Reading.replay`, `Reading.meaning` — what a history looks like, on top of what was
  seen before it, and from the start.
* `Reading.waiting` — the last value with the number of operands after it.
* `Write.history` — the records that a list of writes leaves on a key.

## Main results

* `Reading.replay_append` — a history is seen in its parts, one after the other.
* `Reading.replay_eq_after` — only the chain of a history can be seen.
* `Reading.meaning_waiting` — the plain reading sees the value and the length of the
  chain.
-/

namespace LazyTally

/-- A way to read the records of a key. -/
structure Reading (α : Type) where
  /-- How a put, or the absence of a value, is seen. -/
  value : Option Bytes → α
  /-- How an operand changes what was seen. -/
  merge : α → Bytes → α

namespace Reading

variable {α : Type} (reading : Reading α)

/-- What is seen after one more record. -/
def next (seen : α) : Record → α
  | .put value => reading.value (some value)
  | .merge operand => reading.merge seen operand
  | .delete => reading.value none

/-- What is seen after a history, oldest record first. -/
def replay (seen : α) (records : List Record) : α := records.foldl reading.next seen

/-- What a history looks like when there was nothing before it. -/
def meaning (records : List Record) : α := reading.replay (reading.value none) records

@[simp] theorem replay_cons (seen : α) (record : Record) (records : List Record) :
    reading.replay seen (record :: records) =
      reading.replay (reading.next seen record) records := rfl

/-- A history is seen in its parts, one after the other. -/
theorem replay_append (seen : α) (older newer : List Record) :
    reading.replay seen (older ++ newer) = reading.replay (reading.replay seen older) newer :=
  List.foldl_append

theorem replay_map_merge (seen : α) (operands : List Bytes) :
    reading.replay seen (operands.map Record.merge) = operands.foldl reading.merge seen := by
  rw [replay, List.foldl_map]
  rfl

/-! ### Histories with the same chain -/

/-- What the operands of a chain are merged into: its base, or what was seen before. -/
def start (seen : α) (chain : Chain) : α :=
  match chain.base with
  | some base => reading.value base.value?
  | none => seen

/-- What is seen after a chain. -/
def after (seen : α) (chain : Chain) : α :=
  chain.operands.foldl reading.merge (reading.start seen chain)

/-- Over nothing, operands are merged into the value of their chain, if it has one. -/
theorem start_none (chain : Chain) :
    reading.start (reading.value none) chain = reading.value chain.value? := by
  rw [start, Chain.value?]
  cases chain.base <;> rfl

/-- Only the chain of a history can be seen: what its base hides does not matter. -/
theorem replay_eq_after (seen : α) (records : List Record) :
    reading.replay seen records = reading.after seen (Chain.ofRecords records) := by
  induction records generalizing seen with
  | nil => rfl
  | cons record records ih =>
    rw [replay_cons, ih, Chain.ofRecords_cons]
    obtain ⟨base, operands⟩ := Chain.ofRecords records
    -- a base in the later records hides this one, whatever it is
    cases base with
    | some base => rfl
    | none => cases record <;> rfl

/-! ### The plain reading -/

/-- The last value with the number of operands that were merged after it. -/
def waiting : Reading (Option Bytes × Nat) where
  value bytes := (bytes, 0)
  merge seen _ := (seen.1, seen.2 + 1)

theorem foldl_waiting (seen : Option Bytes × Nat) (operands : List Bytes) :
    operands.foldl waiting.merge seen = (seen.1, seen.2 + operands.length) := by
  induction operands generalizing seen with
  | nil => rfl
  | cons operand rest ih =>
    rw [List.foldl_cons, ih, List.length_cons]
    show (seen.1, seen.2 + 1 + rest.length) = _
    rw [Nat.add_assoc, Nat.add_comm 1]

/-- The plain reading sees the value under a chain and the number of its operands. -/
theorem meaning_waiting (records : List Record) :
    waiting.meaning records =
      ((Chain.ofRecords records).value?, (Chain.ofRecords records).operands.length) := by
  rw [meaning, replay_eq_after, after, start_none, foldl_waiting]
  show (_, 0 + _) = _
  rw [Nat.zero_add]
  rfl

/-- The reading that sees nothing. -/
def blind : Reading Unit := ⟨fun _ => (), fun _ _ => ()⟩

end Reading

/-! ### Histories of writes -/

namespace Write

/-- The records that writes leave on a key, oldest first. -/
def history (writes : List Write) (key : Bytes) : List Record :=
  (writes.filter fun write => write.key = key).map Write.record

@[simp] theorem history_nil (key : Bytes) : history [] key = [] := rfl

theorem history_cons (write : Write) (writes : List Write) (key : Bytes) :
    history (write :: writes) key =
      if write.key = key then write.record :: history writes key else history writes key := by
  unfold history
  rw [List.filter_cons]
  split <;> simp_all

theorem history_append (older newer : List Write) (key : Bytes) :
    history (older ++ newer) key = history older key ++ history newer key := by
  rw [history, List.filter_append, List.map_append]
  rfl

end Write
end LazyTally
