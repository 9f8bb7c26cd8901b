import LazyTally.Proofs.Script

/-!
# What commands leave

With a total operator a command has no choice: the engine that it leaves is a function of the
engine that it finds.  This module writes that function down, and says what a batch does to the
records of one key.

## Main definitions

* `Layered.written` — the engine after a batch.
* `Command.effect` — the engine after a command.
* `Script.after` — the engine after a script whose failures do not end it.
* `Script.Rearranges` — a script that writes nothing and keeps the operator.

## Main results

* `Command.after_call` — a command leaves its effect.
* `Layered.records_written` — what a batch leaves on a key in the memtable.
* `Layered.OpenUnder.result_get_rearranged` — each key reads as before if nothing is written.
-/

namespace LazyTally

/-- A batch merges operands into the keys on which it leaves any. -/
theorem Batch.mem_mergedKeys {batch : Batch} {key : Bytes} :
    key ∈ batch.mergedKeys ↔ ∃ operand, Record.merge operand ∈ Write.history batch key := by
  rw [mergedKeys, Bytes.mem_sortDistinct]
  simp only [Write.history, List.mem_filterMap, List.mem_map, List.mem_filter, decide_eq_true_eq]
  constructor
  · rintro ⟨⟨k, record⟩, hmem, hkey⟩
    cases record with
    | merge operand => exact ⟨operand, _, ⟨hmem, Option.some.inj hkey⟩, rfl⟩
    | put value => cases hkey
    | delete => cases hkey
  · rintro ⟨operand, ⟨k, record⟩, ⟨hmem, rfl⟩, rfl⟩
    exact ⟨_, hmem, rfl⟩

namespace Layered

variable {engine : Layered}

/-! ### Enforcing the limit on many keys -/

theorem limited_eq (engine : Layered) (key : Bytes) :
    engine.limited key = { engine with memtable := (engine.limited key).memtable } := by
  unfold limited
  split <;> rfl

theorem ascending_limited (h : KeyMap.Ascending engine.memtable) (key : Bytes) :
    KeyMap.Ascending (engine.limited key).memtable := by
  unfold limited
  split
  · exact h
  · exact KeyMap.ascending_insert h _ _

/-- The limit changes the records of its own key and of no other. -/
theorem records_limited (h : KeyMap.Ascending engine.memtable) (key k : Bytes) :
    (engine.limited key).memtable.records k =
      if key = k then
        Resolution.limited engine.operator engine.limit key (engine.memtable.records key)
      else engine.memtable.records k := by
  unfold limited Resolution.limited
  cases Resolution.replacement? engine.operator engine.limit key
      (Chain.ofRecords (engine.memtable.records key)) with
  | none =>
    by_cases hkey : key = k
    · simp [hkey]
    · simp [hkey]
  | some record =>
    show Layer.records (KeyMap.insert engine.memtable key [record]) k = _
    rw [Layer.records, KeyMap.find?_insert h]
    by_cases hkey : key = k
    · simp [hkey]
    · simp [hkey, Layer.records]

theorem foldl_limited_eq (engine : Layered) (keys : List Bytes) :
    keys.foldl limited engine =
      { engine with memtable := (keys.foldl limited engine).memtable } := by
  induction keys generalizing engine with
  | nil => rfl
  | cons key keys ih =>
    rw [List.foldl_cons, ih, limited_eq]

theorem ascending_foldl_limited (h : KeyMap.Ascending engine.memtable) (keys : List Bytes) :
    KeyMap.Ascending (keys.foldl limited engine).memtable := by
  induction keys generalizing engine with
  | nil => exact h
  | cons key keys ih => exact ih (ascending_limited h key)

/-- Of keys that differ, each has its records limited once. -/
theorem records_foldl_limited (h : KeyMap.Ascending engine.memtable) {keys : List Bytes}
    (hkeys : keys.Pairwise (· < ·)) (key : Bytes) :
    (keys.foldl limited engine).memtable.records key =
      if key ∈ keys then
        Resolution.limited engine.operator engine.limit key (engine.memtable.records key)
      else engine.memtable.records key := by
  induction keys generalizing engine with
  | nil => simp
  | cons first rest ih =>
    obtain ⟨hfirst, hrest⟩ := List.pairwise_cons.mp hkeys
    rw [List.foldl_cons, ih (ascending_limited h first) hrest, records_limited h]
    by_cases hkey : first = key
    · -- the first key does not occur again
      subst hkey
      have hnot : first ∉ rest := fun hmem => List.lt_irrefl first (hfirst first hmem)
      simp [hnot]
    · -- the limit of the first key leaves this one alone
      have hother : key ≠ first := Ne.symm hkey
      rw [limited_eq]
      simp [hkey, hother]

theorem gives_forM_limited (htotal : Resolution.Total engine.operator) (keys : List Bytes) :
    Call.Gives (keys.forM enforceLimit) engine () (keys.foldl limited engine) := by
  induction keys generalizing engine with
  | nil => exact Call.gives_pure () engine
  | cons key keys ih =>
    have hoperator : (engine.limited key).operator = engine.operator := by rw [limited_eq]
    exact (gives_limited htotal key).bind (ih (hoperator ▸ htotal))

/-! ### Batches -/

/-- The engine after a batch. -/
def written (engine : Layered) (batch : Batch) : Layered :=
  batch.mergedKeys.foldl limited (engine.pushed batch)

theorem gives_written (htotal : Resolution.Total engine.operator) (batch : Batch) :
    (write batch).Gives engine () (engine.written batch) := by
  have hpushed : Resolution.Total (engine.pushed batch).operator := htotal
  exact (Call.gives_modify _ engine).bind (gives_forM_limited hpushed batch.mergedKeys)

/-- A batch changes the memtable and nothing else. -/
theorem written_eq (engine : Layered) (batch : Batch) :
    engine.written batch = { engine with memtable := (engine.written batch).memtable } :=
  foldl_limited_eq (engine.pushed batch) batch.mergedKeys

@[simp] theorem runs_written (engine : Layered) (batch : Batch) :
    (engine.written batch).runs = engine.runs := by rw [written_eq]

@[simp] theorem operator_written (engine : Layered) (batch : Batch) :
    (engine.written batch).operator = engine.operator := by rw [written_eq]

@[simp] theorem identity_written (engine : Layered) (batch : Batch) :
    (engine.written batch).identity = engine.identity := by rw [written_eq]

@[simp] theorem limit_written (engine : Layered) (batch : Batch) :
    (engine.written batch).limit = engine.limit := by rw [written_eq]

theorem written_nil (engine : Layered) : engine.written [] = engine := rfl

theorem ascending_written (h : engine.Ascending) (batch : Batch) :
    (engine.written batch).Ascending := by
  have hpushed := ascending_pushed h batch
  refine ⟨ascending_foldl_limited hpushed.1 batch.mergedKeys, ?_⟩
  rw [runs_written]
  exact h.2

theorem OpenUnder.written {operator : Option OperatorKind} (h : engine.OpenUnder operator)
    (batch : Batch) : (engine.written batch).OpenUnder operator := by
  refine ⟨?_, ?_, ascending_written h.ascending batch⟩
  · rw [operator_written]
    exact h.operator_eq
  · rw [identity_written]
    exact h.identity_eq

theorem OpenUnder.flushed {operator : Option OperatorKind} (h : engine.OpenUnder operator) :
    engine.flushed.OpenUnder operator := by
  obtain ⟨-, hafter, -⟩ := h.runs_flush
  exact hafter

theorem OpenUnder.compacted {operator : Option OperatorKind} (h : engine.OpenUnder operator) :
    engine.compacted.OpenUnder operator := by
  obtain ⟨-, hafter, -⟩ := h.runs_compact
  exact hafter

/-- What a batch leaves on a key in the memtable: its records after those that were there, under
the limit if any of them is an operand. -/
theorem records_written (h : engine.Ascending) (batch : Batch) (key : Bytes) :
    (engine.written batch).memtable.records key =
      if key ∈ batch.mergedKeys then
        Resolution.limited engine.operator engine.limit key
          (engine.memtable.records key ++ Write.history batch key)
      else engine.memtable.records key ++ Write.history batch key := by
  have hpushed : (engine.pushed batch).memtable.records key =
      engine.memtable.records key ++ Write.history batch key :=
    Layer.records_foldl_push h.1 batch key
  have hdistinct : batch.mergedKeys.Pairwise (· < ·) := Bytes.pairwise_sortDistinct _
  rw [written, records_foldl_limited (ascending_pushed h batch).1 hdistinct, hpushed]
  rfl

end Layered

/-! ### Commands and scripts -/

namespace Command

/-- The engine after a command. -/
def effect (engine : Layered) : Command → Layered
  | put key value => engine.written [.put key value]
  | delete key => engine.written [.delete key]
  | merge key operand => engine.written [.merge key operand]
  | write batch => engine.written batch
  | flush => engine.flushed
  | compact => engine.compacted
  | reopen options => engine.reopened options

/-- A command leaves its effect. -/
theorem after_call {engine : Layered} (htotal : Resolution.Total engine.operator)
    (command : Command) : command.call.after engine = command.effect engine := by
  cases command with
  | put key value => exact (Layered.gives_written htotal [.put key value]).2
  | delete key => exact (Layered.gives_written htotal [.delete key]).2
  | merge key operand => exact (Layered.gives_written htotal [.merge key operand]).2
  | write batch => exact (Layered.gives_written htotal batch).2
  | flush => exact (Layered.gives_flush htotal).2
  | compact => exact (Layered.gives_compact htotal).2
  | reopen options => exact Layered.after_reopen engine options

end Command

/-- The engine that a script leaves of an engine.  A command that fails does not end the script. -/
def Script.after (script : Script) (engine : Layered) : Layered :=
  script.foldl (fun engine command => command.call.after engine) engine

@[simp] theorem Script.after_nil (engine : Layered) : Script.after [] engine = engine := rfl

@[simp] theorem Script.after_cons (command : Command) (script : Script) (engine : Layered) :
    Script.after (command :: script) engine = script.after (command.call.after engine) := rfl

/-- A script of one command leaves the effect of the command. -/
theorem Script.after_singleton {engine : Layered} (htotal : Resolution.Total engine.operator)
    (command : Command) : Script.after [command] engine = command.effect engine :=
  Command.after_call htotal command

theorem Script.after_append (older newer : Script) (engine : Layered) :
    Script.after (older ++ newer) engine = newer.after (older.after engine) := List.foldl_append

theorem Layered.Reachable.after {engine : Layered} (h : engine.Reachable) (script : Script) :
    (script.after engine).Reachable := by
  induction script generalizing engine with
  | nil => exact h
  | cons command script ih => exact ih (h.called command)

/-! ### Rearranging -/

/-- The command writes nothing, and opens the store with no other operator than this. -/
def Command.Rearranges (operator : Option Operator) : Command → Prop
  | flush | compact => True
  | reopen options => options.operator.map OperatorKind.operator = operator
  | _ => False

/-- Flushes, compactions and closing with opening again, under one operator. -/
def Script.Rearranges (operator : Option Operator) (script : Script) : Prop :=
  ∀ command ∈ script, command.Rearranges operator

section

variable {operator : Option OperatorKind} {engine : Layered}

theorem Command.Rearranges.writes_eq {op : Option Operator} {command : Command}
    (h : command.Rearranges op) : command.writes = [] := by
  cases command with
  | flush => rfl
  | compact => rfl
  | reopen options => rfl
  | _ => exact h.elim

theorem Command.Rearranges.keeps {command : Command}
    (h : command.Rearranges (operator.map OperatorKind.operator)) : command.Keeps operator := by
  cases command with
  | reopen options =>
    -- operators on counters differ in their names
    exact Option.map_injective OperatorKind.operator_injective h
  | _ => trivial

/-- Whatever is rearranged, each key reads as before. -/
theorem Layered.OpenUnder.result_get_rearranged (h : engine.OpenUnder operator) {script : Script}
    (hscript : script.Rearranges engine.operator) :
    (script.after engine).OpenUnder operator ∧ ∀ key,
      (Layered.engine.get key).result (script.after engine) =
        (Layered.engine.get key).result engine := by
  rw [h.operator_eq] at hscript
  induction script generalizing engine with
  | nil => exact ⟨h, fun _ => rfl⟩
  | cons command script ih =>
    obtain ⟨hcommand, hrest⟩ := List.forall_mem_cons.mp hscript
    -- each command keeps what is read, so all of them do
    obtain ⟨middle, hruns⟩ := Command.runs_call hcommand.keeps h
    rw [hcommand.writes_eq] at hruns
    rw [Script.after_cons, hruns.1.2]
    obtain ⟨hafter, hreads⟩ := ih hruns.2.1 hrest
    refine ⟨hafter, fun key => ?_⟩
    rw [hreads key, hruns.result_get h key]

end

end LazyTally
