import LazyTally.Bytes

/-!
# Records and chains

A store keeps, for each key, the records of what was written, oldest first.  What
counts for a reader is the newest put or delete, the *base*, and the operands
that were merged after it; older records are hidden by the base.

## Main definitions

* `Record` — what one write leaves.
* `Base` — a put or a delete, which hides what was there before.
* `Chain`, `Chain.ofRecords` — the part of a history that still counts.

## Main results

* `Chain.ofRecords_append` — the chain of a history from those of its two parts.
* `Chain.ofRecords_records` — a chain has a history.
-/

namespace LazyTally

/-- What one write on a key leaves behind. -/
inductive Record where
  /-- The key got a value. -/
  | put (value : Bytes)
  /-- An operand was merged into the key. -/
  | merge (operand : Bytes)
  /-- The key was deleted. -/
  | delete
  deriving DecidableEq, Repr

/-- A write that hides everything before it. -/
inductive Base where
  /-- The key got a value. -/
  | value (bytes : Bytes)
  /-- The key was deleted. -/
  | tombstone
  deriving DecidableEq, Repr

namespace Base

/-- The value that operands start from. -/
def value? : Base → Option Bytes
  | .value bytes => some bytes
  | .tombstone => none

/-- The base as a record. -/
def record : Base → Record
  | .value bytes => .put bytes
  | .tombstone => .delete

end Base

/-- The newest put or delete of a history, if any, and the operands after it. -/
structure Chain where
  /-- The newest put or delete. -/
  base : Option Base
  /-- The operands written after it, oldest first. -/
  operands : List Bytes
  deriving DecidableEq, Repr

namespace Chain

/-- The chain of a history with one more record in front.  The record counts only
if nothing hides it. -/
def behind (record : Record) (chain : Chain) : Chain :=
  match chain.base, record with
  | some _, _ => chain
  | none, .put value => ⟨some (.value value), chain.operands⟩
  | none, .delete => ⟨some .tombstone, chain.operands⟩
  | none, .merge operand => ⟨none, operand :: chain.operands⟩

/-- The part of a history, oldest record first, that still counts. -/
def ofRecords (records : List Record) : Chain := records.foldr behind ⟨none, []⟩

/-- The value that the operands start from. -/
def value? (chain : Chain) : Option Bytes := chain.base.bind Base.value?

/-- The operands as records. -/
def operandRecords (chain : Chain) : List Record := chain.operands.map Record.merge

/-- The shortest history with this chain. -/
def records (chain : Chain) : List Record :=
  (chain.base.map Base.record).toList ++ chain.operandRecords

/-! ### Chains of histories -/

@[simp] theorem ofRecords_nil : ofRecords [] = ⟨none, []⟩ := rfl

@[simp] theorem ofRecords_cons (record : Record) (records : List Record) :
    ofRecords (record :: records) = behind record (ofRecords records) := rfl

/-- A newer part with a put or a delete hides the older part; otherwise its operands
follow those of the older part. -/
theorem ofRecords_append (older newer : List Record) :
    ofRecords (older ++ newer) =
      match (ofRecords newer).base with
      | some _ => ofRecords newer
      | none => ⟨(ofRecords older).base,
          (ofRecords older).operands ++ (ofRecords newer).operands⟩ := by
  generalize hc : ofRecords newer = chain
  obtain ⟨base, operands⟩ := chain
  induction older with
  | nil => cases base <;> exact hc
  | cons record older ih =>
    rw [List.cons_append, ofRecords_cons, ih, ofRecords_cons]
    cases base with
    | some base => rfl
    | none =>
      obtain ⟨under, before⟩ := ofRecords older
      cases under <;> cases record <;> rfl

/-- A put or a delete hides what was there before, and an operand comes after it. -/
theorem ofRecords_concat (records : List Record) (record : Record) :
    ofRecords (records ++ [record]) =
      match record with
      | .put value => ⟨some (.value value), []⟩
      | .merge operand => ⟨(ofRecords records).base, (ofRecords records).operands ++ [operand]⟩
      | .delete => ⟨some .tombstone, []⟩ := by
  rw [ofRecords_append]
  cases record <;> rfl

/-- Operands alone have no base. -/
theorem ofRecords_map_merge (operands : List Bytes) :
    ofRecords (operands.map Record.merge) = ⟨none, operands⟩ := by
  induction operands with
  | nil => rfl
  | cons operand rest ih => rw [List.map_cons, ofRecords_cons, ih]; rfl

/-- A chain is the chain of its shortest history. -/
theorem ofRecords_records (chain : Chain) : ofRecords chain.records = chain := by
  obtain ⟨base, operands⟩ := chain
  rw [records, operandRecords, ofRecords_append, ofRecords_map_merge]
  rcases base with _ | _ | _ <;> rfl

end Chain
end LazyTally
