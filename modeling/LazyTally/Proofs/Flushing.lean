import LazyTally.Proofs.Canonical
import LazyTally.Proofs.Effects

/-!
# What a flush does

A flush knows what lies under an operand only if the memtable itself holds a put or a delete of its
key.  Then the newest of these is all that counts, and it goes to the new run as one record, with
the operands after it merged into it.  The operands of any other key go there as they are, because
a run below may hold what they stand on.

## Main definitions

* `Layered.FlushedTo` — what a flush makes of the records of a key in the memtable.

## Main results

* `Record.operands_or_base` — the records of a key are operands, or end with a base and operands.
* `Layered.flushedTo_condensed` — an operator on counters condenses records as a flush does.
* `Layered.Reachable.flush_effect` — the effect of a flush on layers, operands and reads.
-/

namespace LazyTally

/-! ### The newest base of a key -/

/-- The records of a key are all operands, or else there is a newest put or delete, and what comes
after it are operands. -/
theorem Record.operands_or_base (records : List Record) :
    (∃ operands : List Bytes, records = operands.map merge) ∨
      ∃ (older : List Record) (base : Base) (operands : List Bytes),
        records = older ++ base.record :: operands.map merge := by
  induction records with
  | nil => exact .inl ⟨[], rfl⟩
  | cons record records ih =>
    rcases ih with ⟨operands, rfl⟩ | ⟨older, base, operands, rfl⟩
    · -- the first record is the base if it is one at all
      cases record with
      | put value => exact .inr ⟨[], .value value, operands, rfl⟩
      | merge operand => exact .inl ⟨operand :: operands, rfl⟩
      | delete => exact .inr ⟨[], .tombstone, operands, rfl⟩
    · exact .inr ⟨record :: older, base, operands, rfl⟩

theorem Base.record_ne_merge (base : Base) (operand : Bytes) : base.record ≠ .merge operand := by
  cases base <;> exact nofun

/-- A base hides what was before it, and operands come after it. -/
theorem Chain.ofRecords_base (older : List Record) (base : Base) (operands : List Bytes) :
    ofRecords (older ++ base.record :: operands.map Record.merge) = ⟨some base, operands⟩ := by
  have hnewer : ofRecords (base.record :: operands.map Record.merge) = ⟨some base, operands⟩ := by
    rw [ofRecords_cons, ofRecords_map_merge]
    cases base <;> rfl
  rw [ofRecords_append, hnewer]

/-- A flush does not merge operands of counters over something that it does not know. -/
theorem OperatorKind.mergesOnFlush_eq_false (kind : OperatorKind) (operands : List Bytes) :
    kind.operator.mergesOnFlush operands = false := by
  cases kind <;> rfl

namespace Layered

/-! ### The records of a key -/

/-- What a flush makes of the records that a key has in the memtable. -/
inductive FlushedTo (op : Operator) (key : Bytes) : List Record → List Record → Prop
  /-- Nothing follows the newest put or delete, which is kept as it is. -/
  | bare (older : List Record) (base : Base) :
      FlushedTo op key (older ++ [base.record]) [base.record]
  /-- Operands follow the newest put or delete, and their full merge over it is kept. -/
  | merged (older : List Record) (base : Base) {operands : List Bytes} {value : Bytes}
      (hne : operands ≠ [])
      (hvalue : (op.fullMerge key base.value? operands).value = some value) :
      FlushedTo op key (older ++ base.record :: operands.map Record.merge) [.put value]
  /-- There are only operands, which are kept in their order. -/
  | waiting (operands : List Bytes) :
      FlushedTo op key (operands.map Record.merge) (operands.map Record.merge)

/-- What is condensed above other runs is what a flush makes of it. -/
theorem flushedTo_condensed (kind : OperatorKind) (key : Bytes) (records : List Record) :
    FlushedTo kind.operator key records
      (Resolution.condensed (some kind.operator) key (Chain.ofRecords records) false) := by
  have htotal : Resolution.Total (some kind.operator) := by
    intro op hop
    obtain rfl := Option.some.inj hop
    exact kind.total
  have hcondenses := Resolution.condenses_condensed htotal key (Chain.ofRecords records) false
  generalize Resolution.condensed (some kind.operator) key (Chain.ofRecords records) false = left
    at hcondenses ⊢
  -- cases on the newest put or tombstone of the key in the memtable, if there is one
  rcases Record.operands_or_base records with ⟨operands, rfl⟩ | ⟨older, base, operands, rfl⟩
  · rw [Chain.ofRecords_map_merge] at hcondenses
    cases hcondenses with
    | bare hbare =>
      obtain rfl : operands = [] := hbare
      exact .waiting []
    | kept hne hnone => cases hnone
    | settled hne hop hknown hvalue => simp at hknown
    | joined hne hop hbase hbottom hflush hmerged =>
      -- neither kind merges on a flush
      obtain rfl := Option.some.inj hop
      rw [kind.mergesOnFlush_eq_false] at hflush
      cases hflush
    | unsettled hne hop hbase hbottom => exact .waiting operands
  · rw [Chain.ofRecords_base] at hcondenses
    cases hcondenses with
    | bare hbare =>
      obtain rfl : operands = [] := hbare
      have hkept : Resolution.bare ⟨some base, []⟩ false = [base.record] := by cases base <;> rfl
      rw [hkept]
      exact .bare older base
    | kept hne hnone => cases hnone
    | settled hne hop hknown hvalue =>
      obtain rfl := Option.some.inj hop
      exact .merged older base hne hvalue
    | joined hne hop hbase => cases hbase
    | unsettled hne hop hbase => cases hbase

/-! ### Operands that wait -/

variable {op : Operator} {key : Bytes} {older records left : List Record}

/-- If there is a put or a delete, no operand waits once it is flushed. -/
theorem FlushedTo.operands_eq_nil (h : FlushedTo op key records left) {base : Base}
    (hbase : base.record ∈ records) : (Chain.ofRecords (older ++ left)).operands = [] := by
  cases h with
  | bare before newest => exact congrArg Chain.operands (Chain.ofRecords_base older newest [])
  | merged before newest hne hvalue => rw [Chain.ofRecords_concat]
  | waiting operands =>
    obtain ⟨operand, -, hsame⟩ := List.mem_map.mp hbase
    exact absurd hsame.symm (base.record_ne_merge operand)

/-- If there is none, the records are flushed as they are. -/
theorem FlushedTo.eq_of_no_base (h : FlushedTo op key records left)
    (hnone : ¬∃ base : Base, base.record ∈ records) : left = records := by
  cases h with
  | bare before newest => exact absurd ⟨newest, by simp⟩ hnone
  | merged before newest hne hvalue => exact absurd ⟨newest, by simp⟩ hnone
  | waiting operands => rfl

/-! ### The engine after a flush -/

variable {engine : Layered} {kind : OperatorKind}

/-- A flush moves the records of each key on, below which nothing changes. -/
theorem OpenUnder.history_flushed_eq (h : engine.OpenUnder (some kind)) (key : Bytes) :
    ∃ left, engine.flushed.history key = engine.runHistory key ++ left ∧
      FlushedTo kind.operator key (engine.memtable.records key) left := by
  refine ⟨_, history_flushed engine key, ?_⟩
  rw [h.operator_eq]
  exact flushedTo_condensed kind key (engine.memtable.records key)

/-- The new run holds the keys of the memtable, each with what a flush makes of its records. -/
theorem OpenUnder.find?_condensed (h : engine.OpenUnder (some kind)) {key : Bytes}
    {records : List Record} (hfind : engine.memtable.find? key = some records) :
    ∃ left, (engine.memtable.condensed engine.operator).find? key = some left ∧
      FlushedTo kind.operator key records left := by
  have hcondensed := KeyMap.find?_map (fun key records =>
    Resolution.condensed engine.operator key (Chain.ofRecords records) false) engine.memtable key
  rw [hfind, Option.map_some, h.operator_eq] at hcondensed
  rw [Layer.condensed, h.operator_eq]
  exact ⟨_, hcondensed, flushedTo_condensed kind key records⟩

theorem OpenUnder.pendingOperands_flushed_of_base (h : engine.OpenUnder (some kind))
    {key : Bytes} {base : Base} (hbase : base.record ∈ engine.memtable.records key) :
    engine.flushed.pendingOperands key = 0 := by
  obtain ⟨left, hhistory, hflushed⟩ := h.history_flushed_eq key
  rw [Layers.pendingOperands, Layers.chain, hhistory, hflushed.operands_eq_nil hbase]
  rfl

theorem OpenUnder.pendingOperands_flushed_of_no_base (h : engine.OpenUnder (some kind))
    {key : Bytes} (hnone : ¬∃ base : Base, base.record ∈ engine.memtable.records key) :
    engine.flushed.pendingOperands key = engine.pendingOperands key := by
  obtain ⟨left, hhistory, hflushed⟩ := h.history_flushed_eq key
  have hsame : engine.flushed.history key = engine.history key := by
    rw [hhistory, hflushed.eq_of_no_base hnone, Layers.history_eq]
  simp only [Layers.pendingOperands, Layers.chain, hsame]

/-- On every reachable engine with an operator a flush succeeds.  If the memtable is empty it
changes nothing.  Otherwise it empties the memtable and puts one run on top of the older ones,
which stay as they are: the run has the keys of the memtable, and each has one record if there was
a put or a delete among its records, and else the operands that it had.  So operands of a key go
on waiting, all of them, unless there was such a record, and then none does.  Reads do not
change. -/
theorem Reachable.flush_effect (h : engine.Reachable) (hsome : engine.operator.isSome) :
    ∃ (op : Operator) (after : Layered), engine.operator = some op ∧
      Layered.engine.flush.Gives engine () after ∧
      (engine.memtable = [] → after = engine) ∧
      (engine.memtable ≠ [] → ∃ run : Layer,
        after = { engine with memtable := [], runs := engine.runs ++ [run] } ∧
        run.keys = engine.memtable.keys ∧
        ∀ key records, engine.memtable.find? key = some records →
          ∃ left, run.find? key = some left ∧ FlushedTo op key records left) ∧
      (∀ key, (∃ base : Base, base.record ∈ engine.memtable.records key) →
        after.pendingOperands key = 0) ∧
      (∀ key, (¬∃ base : Base, base.record ∈ engine.memtable.records key) →
        after.pendingOperands key = engine.pendingOperands key) ∧
      ∀ key, (Layered.engine.get key).result after = (Layered.engine.get key).result engine := by
  obtain ⟨kind, hopen⟩ := h.exists_kind hsome
  refine ⟨kind.operator, engine.flushed, hopen.operator_eq, gives_flush hopen.total, ?_, ?_, ?_,
    fun key => hopen.pendingOperands_flushed_of_no_base, hopen.runs_flush.result_get hopen⟩
  · intro hempty
    exact if_pos (List.isEmpty_iff.mpr hempty)
  · -- the layers below are those of before, and the new run has the keys of the memtable
    intro hne
    have hnot : ¬engine.memtable.isEmpty := fun hempty => hne (List.isEmpty_iff.mp hempty)
    refine ⟨engine.memtable.condensed engine.operator, if_neg hnot, ?_, ?_⟩
    · exact List.map_map
    · exact fun key records => hopen.find?_condensed
  · rintro key ⟨base, hbase⟩
    exact hopen.pendingOperands_flushed_of_base hbase

/-- Over a run with operands of two keys, the memtable holds a put with operands after it, a
delete over an operand, and two operands alone.  The first two keys have nothing left that waits,
and the operands of the third go to the new run in their order and wait beside the one below. -/
theorem Reachable.flush_effect_mixed :
    let script : Script :=
      [.write [.merge [1] [4], .merge [2] [5]], .flush,
        .write [.delete [1], .put [1] [9, 9], .merge [1] (Counter.encode 3), .merge [1] [8],
          .merge [3] [7], .delete [3], .merge [2] (Counter.encode 6), .merge [2] []]]
    let engine := Script.after script (Layered.opened [] none ⟨some .associative, 0, true⟩)
    engine.Reachable ∧ engine.operator.isSome ∧ engine.memtable ≠ [] ∧
      ∃ (after : Layered) (run : Layer), Layered.engine.flush.Gives engine () after ∧
        after.runs = engine.runs ++ [run] ∧ run.keys = [[1], [2], [3]] ∧
        run.find? [2] = some [.merge (Counter.encode 6), .merge []] ∧
        after.pendingOperands [1] = 0 ∧ after.pendingOperands [2] = 3 ∧
        after.pendingOperands [3] = 0 := by
  intro script engine
  have hempty : Reachable (Layered.opened [] none ⟨some .associative, 0, true⟩) :=
    .opened ⟨some .associative, 0, true⟩ (result_ofStore (.inl rfl))
  have hreachable : engine.Reachable := hempty.after script
  have hsome : engine.operator.isSome := by decide
  have hne : engine.memtable ≠ [] := by decide
  have hkeys : engine.memtable.keys = [[1], [2], [3]] := by decide
  have htwo : engine.memtable.find? [2] = some [.merge (Counter.encode 6), .merge []] := by decide
  have hoperands : ¬∃ base : Base,
      base.record ∈ ([.merge (Counter.encode 6), .merge []] : List Record) := by
    rintro ⟨base, hbase⟩
    cases base <;> simp [Base.record] at hbase
  have hpending : engine.pendingOperands [2] = 3 := by decide
  obtain ⟨op, after, -, hgives, -, hrun, hzero, hkept, -⟩ :=
    Reachable.flush_effect hreachable hsome
  obtain ⟨run, hafter, hsame, hfind⟩ := hrun hne
  obtain ⟨left, hleft, hflushed⟩ := hfind [2] _ htwo
  obtain rfl := hflushed.eq_of_no_base hoperands
  refine ⟨hreachable, hsome, hne, after, run, hgives, ?_, hsame.trans hkeys, hleft, ?_, ?_, ?_⟩
  · rw [hafter]
  · exact hzero [1] ⟨.value [9, 9], by decide⟩
  · exact (hkept [2] hoperands).trans hpending
  · exact hzero [3] ⟨.tombstone, by decide⟩

end Layered
end LazyTally
