import LazyTally.Proofs.Effects

/-!
# Keys do not interfere

What a store shows of a key does not depend on what was written to other keys.  Such writes decide
which flushes find anything, how many runs there are, which keys a batch has its limit enforced on
and which a compaction visits, so without them the layers are others.  But the records that the
memtable and the runs have of the one key are the same, and all that is seen of it comes from them.

## Main definitions

* `Script.on` — a script without the writes on other keys than one.
* `Layered.AgreeOn` — two engines that have the same records of a key.

## Main results

* `Layered.AgreeOn.command` — two engines go on to agree on a key when one of them gets a command
  and the other what is left of it on the key.
* `Script.reads_on` — what a script shows of a key is what is left of it on the key shows.
-/

namespace LazyTally

/-! ### What is left of a script on a key -/

/-- What is left of a command without the writes on other keys than one.  A batch stays, even if
nothing is left in it. -/
def Command.on (key : Bytes) : Command → Script
  | put k value => if k = key then [put k value] else []
  | delete k => if k = key then [delete k] else []
  | merge k operand => if k = key then [merge k operand] else []
  | write batch => [write (batch.filter fun write => write.key = key)]
  | flush => [flush]
  | compact => [compact]
  | reopen options => [reopen options]

/-- What is left of a script without the writes on other keys than one. -/
def Script.on (key : Bytes) (script : Script) : Script := script.flatMap (Command.on key)

/-- Writes on other keys leave nothing on a key. -/
theorem Write.history_filter (writes : List Write) (key : Bytes) :
    history (writes.filter fun write => write.key = key) key = history writes key := by
  rw [history, history, List.filter_filter]
  simp

/-- On which keys a batch merges is told key by key. -/
theorem Batch.mem_mergedKeys_congr {batch other : Batch} {key : Bytes}
    (h : Write.history other key = Write.history batch key) :
    key ∈ other.mergedKeys ↔ key ∈ batch.mergedKeys := by
  rw [mem_mergedKeys, mem_mergedKeys, h]

/-! ### Engines that agree on a key -/

namespace Layered

/-- Both engines are open with the same operator and the same limit, and they have the same records
of the key, in the memtable and below it. -/
structure AgreeOn (operator : Option OperatorKind) (key : Bytes) (engine other : Layered) :
    Prop where
  /-- The first engine is open with the operator. -/
  opened : engine.OpenUnder operator
  /-- So is the second. -/
  opened' : other.OpenUnder operator
  /-- The limit is the same. -/
  limit : other.limit = engine.limit
  /-- The memtables have the same records of the key. -/
  memtable : other.memtable.records key = engine.memtable.records key
  /-- The runs have the same records of the key. -/
  runs : other.runHistory key = engine.runHistory key

theorem AgreeOn.refl {operator : Option OperatorKind} {engine : Layered}
    (h : engine.OpenUnder operator) (key : Bytes) : AgreeOn operator key engine engine :=
  ⟨h, h, rfl, rfl, rfl⟩

section

variable {operator : Option OperatorKind} {key : Bytes} {engine other : Layered}

/-- The operator is the same. -/
theorem AgreeOn.operator_eq (h : AgreeOn operator key engine other) :
    other.operator = engine.operator :=
  h.opened'.operator_eq.trans h.opened.operator_eq.symm

theorem AgreeOn.history_eq (h : AgreeOn operator key engine other) :
    other.history key = engine.history key := by
  rw [Layers.history_eq, Layers.history_eq, h.memtable, h.runs]

/-- With nothing in their memtables, engines agree on a key that has the same history in both. -/
theorem AgreeOn.of_history (hengine : engine.OpenUnder operator) (hother : other.OpenUnder operator)
    (hlimit : other.limit = engine.limit) (hmemtable : engine.memtable = [])
    (hmemtable' : other.memtable = []) (hhistory : other.history key = engine.history key) :
    AgreeOn operator key engine other := by
  rw [Layers.history_eq, Layers.history_eq, hmemtable, hmemtable', Layer.records_nil,
    List.append_nil, List.append_nil] at hhistory
  exact ⟨hengine, hother, hlimit, by rw [hmemtable, hmemtable'], hhistory⟩

/-! ### What commands do to engines that agree -/

/-- Engines that agree on a key go on to do so after batches that have the same writes on it. -/
theorem AgreeOn.written (h : AgreeOn operator key engine other) {batch batch' : Batch}
    (hbatch : Write.history batch' key = Write.history batch key) :
    AgreeOn operator key (engine.written batch) (other.written batch') := by
  refine ⟨h.opened.written batch, h.opened'.written batch', ?_, ?_, ?_⟩
  · rw [limit_written, limit_written, h.limit]
  · -- the limit is enforced on the key in both engines or in none
    have hmerged := Batch.mem_mergedKeys_congr hbatch
    rw [records_written h.opened.ascending, records_written h.opened'.ascending, h.operator_eq,
      h.limit, h.memtable, hbatch]
    simp only [hmerged]
  · have hruns := h.runs
    simp only [Layers.runHistory, runs_written] at hruns ⊢
    exact hruns

/-- A single write is seen on its own key, and may be left out on any other. -/
theorem AgreeOn.single (h : AgreeOn operator key engine other) {command : Command}
    (write : Write) (hcommand : ∀ engine : Layered, command.effect engine = engine.written [write]) :
    AgreeOn operator key (command.effect engine)
      (Script.after (if write.key = key then [command] else []) other) := by
  rw [hcommand]
  by_cases hkey : write.key = key
  · rw [if_pos hkey, Script.after_singleton h.opened'.total, hcommand]
    exact h.written rfl
  · have hnothing : Write.history [] key = Write.history [write] key := by
      rw [Write.history_cons, if_neg hkey]
    rw [if_neg hkey, Script.after_nil, ← written_nil other]
    exact h.written hnothing

theorem AgreeOn.flushed (h : AgreeOn operator key engine other) :
    AgreeOn operator key engine.flushed other.flushed := by
  refine AgreeOn.of_history h.opened.flushed h.opened'.flushed ?_ (memtable_flushed engine)
    (memtable_flushed other) ?_
  · rw [limit_flushed, limit_flushed, h.limit]
  · rw [history_flushed, history_flushed, h.runs, h.memtable, h.operator_eq]

theorem AgreeOn.compacted (h : AgreeOn operator key engine other) :
    AgreeOn operator key engine.compacted other.compacted := by
  refine AgreeOn.of_history h.opened.compacted h.opened'.compacted ?_ (memtable_compacted engine)
    (memtable_compacted other) ?_
  · exact h.flushed.limit
  · rw [history_compacted h.opened.ascending, history_compacted h.opened'.ascending,
      h.flushed.operator_eq, Layers.chain, h.flushed.history_eq]
    rfl

/-- Both stores accept the options, or neither does. -/
theorem AgreeOn.reopened (h : AgreeOn operator key engine other) (options : Options) :
    ∃ operator', AgreeOn operator' key (engine.reopened options) (other.reopened options) := by
  by_cases hadopts : operator = none ∨ operator = options.operator
  · rw [h.opened.reopened_of_adopts hadopts, h.opened'.reopened_of_adopts hadopts]
    obtain ⟨-, hengine, -⟩ := h.opened.runs_reopen options hadopts
    obtain ⟨-, hother, -⟩ := h.opened'.runs_reopen options hadopts
    refine ⟨options.operator, AgreeOn.of_history hengine hother rfl rfl rfl ?_⟩
    rw [history_opened_close, history_opened_close, h.history_eq]
  · rw [h.opened.reopened_of_refuses hadopts, h.opened'.reopened_of_refuses hadopts]
    exact ⟨operator, h⟩

/-- Engines that agree on a key go on to do so when one of them gets a command and the other what is
left of it on the key. -/
theorem AgreeOn.command (h : AgreeOn operator key engine other) (command : Command) :
    ∃ operator', AgreeOn operator' key (command.call.after engine)
      ((command.on key).after other) := by
  rw [Command.after_call h.opened.total]
  -- a single write concerns the key or leaves it alone
  cases command with
  | put k value => exact ⟨operator, h.single (.put k value) fun _ => rfl⟩
  | delete k => exact ⟨operator, h.single (.delete k) fun _ => rfl⟩
  | merge k operand => exact ⟨operator, h.single (.merge k operand) fun _ => rfl⟩
  | write batch =>
    -- of a batch, the projected script keeps the writes to the key
    rw [Command.on, Script.after_singleton h.opened'.total]
    exact ⟨operator, h.written (Write.history_filter batch key)⟩
  | flush =>
    rw [Command.on, Script.after_singleton h.opened'.total]
    exact ⟨operator, h.flushed⟩
  | compact =>
    rw [Command.on, Script.after_singleton h.opened'.total]
    exact ⟨operator, h.compacted⟩
  | reopen options =>
    rw [Command.on, Script.after_singleton h.opened'.total]
    exact h.reopened options

/-- Engines that agree on a key go on to do so through a script. -/
theorem AgreeOn.script (h : AgreeOn operator key engine other) (script : Script) :
    ∃ operator', AgreeOn operator' key (script.after engine) ((script.on key).after other) := by
  induction script generalizing operator engine other with
  | nil => exact ⟨operator, h⟩
  | cons command script ih =>
    obtain ⟨operator', hcommand⟩ := h.command command
    rw [Script.after_cons, Script.on, List.flatMap_cons, Script.after_append]
    exact ih hcommand

/-- Engines that agree on a key show the same of it. -/
theorem AgreeOn.reads (h : AgreeOn operator key engine other) :
    (Layered.engine.get key).result other = (Layered.engine.get key).result engine ∧
      other.pendingOperands key = engine.pendingOperands key ∧
      other.memtableOperands key = engine.memtableOperands key ∧
      other.history key = engine.history key := by
  have hchain : other.chain key = engine.chain key := by
    rw [Layers.chain, Layers.chain, h.history_eq]
  refine ⟨?_, ?_, ?_, h.history_eq⟩
  · show (Resolution.read other.operator key (other.chain key)).result =
      (Resolution.read engine.operator key (engine.chain key)).result
    rw [hchain, h.operator_eq]
  · rw [Layers.pendingOperands, Layers.pendingOperands, hchain]
  · rw [Layers.memtableOperands, Layers.memtableOperands, h.memtable]

end
end Layered

/-- What a store shows of a key after a script from its first opening on, be it a value or a
failure, is what it shows after the writes on that key alone. -/
theorem Script.reads_on (options : Options) (script : Script) (key : Bytes) :
    ∃ empty : Layered, (Layered.ofStore Store.empty options).result = .ok empty ∧
      (Layered.engine.get key).result ((script.on key).after empty) =
        (Layered.engine.get key).result (script.after empty) ∧
      ((script.on key).after empty).pendingOperands key =
        (script.after empty).pendingOperands key ∧
      ((script.on key).after empty).memtableOperands key =
        (script.after empty).memtableOperands key ∧
      ((script.on key).after empty).history key = (script.after empty).history key := by
  have hagree := Layered.AgreeOn.refl (Layered.openUnder_opened options) key
  obtain ⟨operator, hafter⟩ := hagree.script script
  exact ⟨_, Layered.result_ofStore (.inl rfl), hafter.reads⟩

end LazyTally
