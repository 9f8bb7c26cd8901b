import Mathlib.Data.Option.Basic
import LazyTally.Proofs.Reorganising

/-!
# Scripts

A script is what happens to a store from its first opening on: writes, one by one or in
batches, flushes, compactions, and closing with opening again.  As long as the store is
opened with one operator every command succeeds, and what a script leaves is told by its
writes alone.

## Main definitions

* `Command`, `Command.call` — what can happen to an open engine.
* `Command.writes`, `Script.writes` — the writes among it, in order.
* `Script.run` — the engine that a script leaves, from a store that was never written.
* `Layered.reopened` — the engine after it was closed and opened again.
* `Layered.OpenUnder` — an engine that is open with an operator, its layers in order.
* `Layered.Takes` — what was seen before is seen with some writes more.
* `Layered.Reachable` — the engines that a store can have been opened as.

## Main results

* `Command.runs_call` — under one operator a command succeeds and takes its writes.
* `Script.runs_call`, `Script.run_eq_ok` — so does a script.
* `Layered.Reachable.openUnder` — every engine is open with the operator of its mark.
-/

namespace LazyTally

open Engine (Event)

/-! ### Commands -/

/-- What can happen to an open engine. -/
inductive Command where
  /-- A key gets a value. -/
  | put (key value : Bytes)
  /-- A key is deleted. -/
  | delete (key : Bytes)
  /-- An operand is merged into a key. -/
  | merge (key operand : Bytes)
  /-- A batch is applied. -/
  | write (batch : Batch)
  /-- The memtable is flushed. -/
  | flush
  /-- The runs are compacted. -/
  | compact
  /-- The engine is closed, and its store opened again. -/
  | reopen (options : Options)
  deriving DecidableEq, Repr

/-- Closes the engine and opens its store again; if that fails, all stays as it is. -/
def Layered.reopen (options : Options) : Call Event Layered Unit := do
  let engine ← get
  set (← Layered.ofStore engine.close options)

/-- The engine that a call leaves of a store that was never written. -/
def Layered.fromEmpty {ω : Type} (options : Options) (call : Call ω Layered Unit) :
    Except Failure Layered := do
  let engine ← (Layered.ofStore Store.empty options).result
  call.result engine
  return call.after engine

namespace Command

/-- What a command does to the engine. -/
def call : Command → Call Event Layered Unit
  | put key value => Layered.engine.put key value
  | delete key => Layered.engine.delete key
  | merge key operand => Layered.engine.merge key operand
  | write batch => Layered.engine.write batch
  | flush => Layered.engine.flush
  | compact => Layered.engine.compact
  | reopen options => Layered.reopen options

/-- The writes of a command, in order. -/
def writes : Command → List Write
  | put key value => [.put key value]
  | delete key => [.delete key]
  | merge key operand => [.merge key operand]
  | write batch => batch
  | flush | compact | reopen _ => []

/-- The store is not opened with another operator. -/
def Keeps (operator : Option OperatorKind) : Command → Prop
  | reopen options => options.operator = operator
  | _ => True

instance (operator : Option OperatorKind) : DecidablePred (Keeps operator) := fun command => by
  cases command <;> unfold Keeps <;> infer_instance

end Command

/-- What happens to a store, in order. -/
abbrev Script := List Command

namespace Script

/-- What a script does to the engine; the first failure ends it. -/
def call (script : Script) : Call Event Layered Unit := script.forM Command.call

/-- The writes of a script, in order. -/
def writes (script : Script) : List Write := script.flatMap Command.writes

/-- The store is not opened with another operator. -/
def Keeps (operator : Option OperatorKind) (script : Script) : Prop :=
  ∀ command ∈ script, command.Keeps operator

instance (operator : Option OperatorKind) (script : Script) : Decidable (script.Keeps operator) :=
  inferInstanceAs (Decidable (∀ command ∈ script, command.Keeps operator))

/-- The engine that a script leaves of a store that was never written. -/
def run (options : Options) (script : Script) : Except Failure Layered :=
  Layered.fromEmpty options script.call

end Script

/-! ### Marks -/

theorem OperatorKind.name_injective : Function.Injective OperatorKind.name := by
  intro kind other h
  cases kind <;> cases other
  · rfl
  · exact absurd h (by decide)
  · exact absurd h (by decide)
  · rfl

/-- Operators on counters differ, as their names do. -/
theorem OperatorKind.operator_injective : Function.Injective OperatorKind.operator := by
  intro kind other h
  exact name_injective (congrArg Operator.name h)

/-- A store without a mark accepts every operator, and any other store that of its mark. -/
theorem OperatorKind.mark_iff {operator : Option OperatorKind} {options : Options} :
    (operator.map OperatorKind.name = none ∨
      operator.map OperatorKind.name = options.operatorName?) ↔
        (operator = none ∨ operator = options.operator) := by
  constructor
  · rintro (hnone | hsame)
    · exact .inl (Option.map_eq_none_iff.mp hnone)
    · exact .inr (Option.map_injective OperatorKind.name_injective hsame)
  · rintro (rfl | rfl)
    · exact .inl rfl
    · exact .inr rfl

namespace Layered

/-! ### Opening again -/

/-- The engine of a store with these runs and this mark. -/
def opened (runs : List Layer) (identity : Option String) (options : Options) : Layered where
  memtable := []
  runs := runs
  operator := options.operator.map OperatorKind.operator
  identity := identity.or options.operatorName?
  limit := options.maxSuccessiveMerges

theorem result_ofStore {store : Store} {options : Options}
    (h : store.operator = none ∨ store.operator = options.operatorName?) :
    (ofStore store options).result = .ok (opened store.runs store.operator options) := by
  rw [ofStore, checkOperator, if_pos h]
  rfl

theorem result_ofStore_error {store : Store} {options : Options}
    (h : ¬(store.operator = none ∨ store.operator = options.operatorName?)) :
    (ofStore store options).result =
      .error (.operatorMismatch store.operator options.operatorName?) := by
  rw [ofStore, checkOperator, if_neg h]
  rfl

/-- Opening a store that was never written succeeds. -/
theorem fromEmpty_eq_ok_iff {ω : Type} {options : Options} {call : Call ω Layered Unit}
    {after : Layered} :
    fromEmpty options call = .ok after ↔ call.Gives (opened [] none options) () after := by
  have hopened : (ofStore Store.empty options).result = .ok (opened [] none options) :=
    result_ofStore (.inl rfl)
  rw [fromEmpty, hopened]
  show (call.result _ >>= fun _ => Except.ok _) = Except.ok after ↔ _
  cases hresult : call.result (opened [] none options) with
  | error failure => exact ⟨nofun, fun h => nomatch hresult.symm.trans h.1⟩
  | ok done => exact ⟨fun h => ⟨hresult, Except.ok.inj h⟩, fun h => congrArg Except.ok h.2⟩

theorem gives_reopen {engine : Layered} {options : Options}
    (h : engine.identity = none ∨ engine.identity = options.operatorName?) :
    (reopen options).Gives engine () (opened engine.close.runs engine.identity options) := by
  have hstore : engine.close.operator = none ∨ engine.close.operator = options.operatorName? := h
  exact (Call.gives_get engine).bind
    ((Call.gives_lift (result_ofStore hstore) engine).bind (Call.gives_set _ _))

/-- The engine after it was closed and opened again, if its store accepts the options. -/
def reopened (engine : Layered) (options : Options) : Layered :=
  if engine.identity = none ∨ engine.identity = options.operatorName? then
    opened engine.close.runs engine.identity options
  else engine

theorem after_reopen (engine : Layered) (options : Options) :
    (reopen options).after engine = engine.reopened options := by
  unfold reopened
  split
  · next haccepts => exact (gives_reopen haccepts).2
  · next hrefuses =>
    -- opening fails before anything is set
    have hfail : (liftM (ofStore engine.close options) : Call Event Layered Layered).result engine =
        .error _ := result_ofStore_error hrefuses
    have hrest := Call.after_bind_of_error hfail fun opened => set opened
    exact hrest

theorem history_opened_close (engine : Layered) (identity : Option String) (options : Options)
    (key : Bytes) :
    (opened engine.close.runs identity options).history key = engine.history key := by
  rw [Layers.history_eq, Layers.history_eq]
  show List.flatMap _ engine.close.runs ++ [] = _
  rw [List.append_nil]
  unfold close
  dsimp only
  split
  · next hempty =>
    rw [List.isEmpty_iff.mp hempty, Layer.records_nil, List.append_nil]
    rfl
  · rw [List.flatMap_append, List.flatMap_singleton]
    rfl

/-- In a closed store there are the old runs, and the memtable as it was. -/
theorem mem_or_eq_of_mem_runs_close {engine : Layered} {run : Layer}
    (h : run ∈ engine.close.runs) : run ∈ engine.runs ∨ run = engine.memtable := by
  unfold close at h
  dsimp only at h
  split at h
  · exact .inl h
  · exact (List.mem_append.mp h).imp_right List.mem_singleton.mp

theorem ascending_close {engine : Layered} (h : engine.Ascending) :
    ∀ run ∈ engine.close.runs, KeyMap.Ascending run := by
  intro run hrun
  rcases mem_or_eq_of_mem_runs_close hrun with hold | rfl
  · exact h.2 run hold
  · exact h.1

/-! ### Engines under one operator -/

/-- The engine is open with an operator, or without, and its layers are in order. -/
structure OpenUnder (operator : Option OperatorKind) (engine : Layered) : Prop where
  /-- The operator is configured. -/
  operator_eq : engine.operator = operator.map OperatorKind.operator
  /-- The store is marked with it. -/
  identity_eq : engine.identity = operator.map OperatorKind.name
  /-- The layers are in key order. -/
  ascending : engine.Ascending

theorem OpenUnder.total {operator : Option OperatorKind} {engine : Layered}
    (h : engine.OpenUnder operator) : Resolution.Total engine.operator := by
  intro op hop
  rw [h.operator_eq] at hop
  obtain ⟨kind, -, rfl⟩ := Option.map_eq_some_iff.mp hop
  exact kind.total

/-- An engine that has an operator is open with one of the two kinds. -/
theorem OpenUnder.exists_kind {operator : Option OperatorKind} {engine : Layered}
    (h : engine.OpenUnder operator) (hsome : engine.operator.isSome) :
    ∃ kind, operator = some kind := by
  rw [h.operator_eq, Option.isSome_map] at hsome
  exact Option.isSome_iff_exists.mp hsome

/-- A store that accepts the operator of the options is open with it, and keeps its mark. -/
theorem openUnder_reopened {runs : List Layer} {operator : Option OperatorKind}
    {options : Options} (hruns : ∀ run ∈ runs, KeyMap.Ascending run)
    (hadopts : operator = none ∨ operator = options.operator) :
    (opened runs (operator.map OperatorKind.name) options).OpenUnder options.operator := by
  refine ⟨rfl, ?_, List.Pairwise.nil, hruns⟩
  show (operator.map OperatorKind.name).or options.operatorName? = options.operatorName?
  rcases hadopts with rfl | rfl
  · exact Option.none_or
  · exact Option.or_self

/-- An engine opens again with its own operator, and without one it can adopt any. -/
theorem OpenUnder.reopened_of_adopts {operator : Option OperatorKind} {engine : Layered}
    (h : engine.OpenUnder operator) {options : Options}
    (hadopts : operator = none ∨ operator = options.operator) :
    engine.reopened options = opened engine.close.runs engine.identity options := by
  have hmark := OperatorKind.mark_iff.mpr hadopts
  rw [← h.identity_eq] at hmark
  exact if_pos hmark

/-- An engine does not open again with another operator than its own, or with none instead. -/
theorem OpenUnder.reopened_of_refuses {operator : Option OperatorKind} {engine : Layered}
    (h : engine.OpenUnder operator) {options : Options}
    (hrefuses : ¬(operator = none ∨ operator = options.operator)) :
    engine.reopened options = engine := by
  rw [← OperatorKind.mark_iff, ← h.identity_eq] at hrefuses
  exact if_neg hrefuses

theorem openUnder_opened (options : Options) :
    (opened [] none options).OpenUnder options.operator := by
  have hruns : ∀ run ∈ ([] : List Layer), KeyMap.Ascending run := nofun
  have hadopts : (none : Option OperatorKind) = none ∨ none = options.operator := .inl rfl
  exact openUnder_reopened hruns hadopts

/-- With an operator every key can be read: its value is what the operator gives to one
operand of its history at a time. -/
theorem OpenUnder.result_get {kind : OperatorKind} {engine : Layered}
    (h : engine.OpenUnder (some kind)) (key : Bytes) :
    (Layered.engine.get key).result engine =
      .ok ((kind.operator.stepwise key).meaning (engine.history key)) := by
  show (Resolution.read engine.operator key (engine.chain key)).result = _
  rw [h.operator_eq]
  exact Resolution.result_read kind.total (kind.respects_stepwise key) (engine.history key)

/-- Without an operator the plain reading of its history tells how many operands of a key
wait, and the key can be read if none do. -/
theorem OpenUnder.result_get_waiting {engine : Layered} (h : engine.OpenUnder none) {key : Bytes}
    {value : Option Bytes} {count : Nat}
    (hmeaning : Reading.waiting.meaning (engine.history key) = (value, count)) :
    engine.pendingOperands key = count ∧
      (Layered.engine.get key).result engine =
        if 0 < count then
          .error (.engineRead ("merge operands for key " ++ key.text
            ++ " but no merge operator configured"))
        else .ok value := by
  rw [Reading.meaning_waiting] at hmeaning
  obtain ⟨rfl, rfl⟩ := Prod.mk.inj hmeaning
  refine ⟨rfl, ?_⟩
  show (Resolution.read engine.operator key (engine.chain key)).result = _
  rw [h.operator_eq, Layers.chain]
  -- the read depends on the history only through the chain
  generalize Chain.ofRecords (engine.history key) = chain
  by_cases hbare : chain.operands = []
  · rw [hbare, List.length_nil, if_neg (Nat.lt_irrefl 0)]
    exact Resolution.result_read_bare none hbare
  · rw [if_pos (List.length_pos_iff.mpr hbare)]
    exact Resolution.result_read_none hbare

/-- A key reads alike in two engines if its histories cannot be told apart. -/
theorem OpenUnder.result_get_congr {operator : Option OperatorKind} {engine other : Layered}
    (h : engine.OpenUnder operator) (hother : other.OpenUnder operator) {key : Bytes}
    (hmeaning : ∀ {α : Type} {readings : Bytes → Reading α},
      Resolution.Respects (operator.map OperatorKind.operator) readings →
        (readings key).meaning (other.history key) = (readings key).meaning (engine.history key)) :
    (Layered.engine.get key).result other = (Layered.engine.get key).result engine := by
  cases operator with
  | some kind =>
    -- with an operator a read shows what the operator makes of the history
    have hstepwise := hmeaning (Resolution.respects_stepwise kind)
    rw [h.result_get, hother.result_get, hstepwise]
  | none =>
    -- without one a read shows the last value, or how many operands are behind it
    have hwaiting := hmeaning (Resolution.respects_none fun _ => Reading.waiting)
    obtain ⟨-, hread⟩ := h.result_get_waiting rfl
    obtain ⟨-, hread'⟩ := hother.result_get_waiting hwaiting
    rw [hread, hread']

/-- What was seen in the first engine is seen in the second with some writes more. -/
def Takes {α : Type} (readings : Bytes → Reading α) (writes : List Write)
    (engine after : Layered) : Prop :=
  ∀ key, (readings key).meaning (after.history key) =
    (readings key).replay ((readings key).meaning (engine.history key)) (Write.history writes key)

section

variable {α : Type} {readings : Bytes → Reading α} {engine middle after : Layered}
  {operator : Option OperatorKind}

theorem SameTo.openUnder (h : SameTo readings engine after) (hopen : engine.OpenUnder operator) :
    after.OpenUnder operator :=
  ⟨h.operator.trans hopen.operator_eq, h.identity.trans hopen.identity_eq,
    h.ascending hopen.ascending⟩

theorem SameTo.takes (h : SameTo readings engine after) (hasc : engine.Ascending) :
    Takes readings [] engine after := h.meaning hasc

theorem Takes.append {older newer : List Write} (h : Takes readings older engine middle)
    (hnext : Takes readings newer middle after) :
    Takes readings (older ++ newer) engine after := by
  intro key
  rw [hnext key, h key, Write.history_append, Reading.replay_append]

/-- A single write is seen on its own key. -/
theorem Takes.meaning_self {write : Write} (h : Takes readings [write] engine after) :
    (readings write.key).meaning (after.history write.key) =
      (readings write.key).next ((readings write.key).meaning (engine.history write.key))
        write.record := by
  rw [h write.key, Write.history_cons, if_pos rfl]
  rfl

/-- It is seen on no other key. -/
theorem Takes.meaning_of_ne {write : Write} (h : Takes readings [write] engine after)
    {key : Bytes} (hne : key ≠ write.key) :
    (readings key).meaning (after.history key) = (readings key).meaning (engine.history key) := by
  rw [h key, Write.history_cons, if_neg hne.symm]
  rfl

/-- If all is known of what was seen, so it is after a single write. -/
theorem Takes.meaning_of_single {write : Write} {seen seen' : Bytes → α}
    (h : Takes readings [write] engine after)
    (hseen : ∀ key, (readings key).meaning (engine.history key) = seen key)
    (hself : (readings write.key).next (seen write.key) write.record = seen' write.key)
    (hother : ∀ key, key ≠ write.key → seen' key = seen key) (key : Bytes) :
    (readings key).meaning (after.history key) = seen' key := by
  by_cases hkey : key = write.key
  · subst hkey
    rw [h.meaning_self, hseen]
    exact hself
  · rw [h.meaning_of_ne hkey, hseen, hother key hkey]

theorem takes_pushed (hasc : engine.Ascending) (batch : Batch) :
    Takes readings batch engine (engine.pushed batch) := by
  intro key
  rw [history_pushed hasc, Reading.meaning, Reading.replay_append]
  rfl

/-- What a command or a script does under one operator: it succeeds, the engine stays
open with the operator, and every reading that the operator respects sees the writes. -/
def Runs (operator : Option OperatorKind) (writes : List Write) (call : Call Event Layered Unit)
    (engine after : Layered) : Prop :=
  call.Gives engine () after ∧ after.OpenUnder operator ∧
    ∀ {α : Type} {readings : Bytes → Reading α},
      Resolution.Respects (operator.map OperatorKind.operator) readings →
        Takes readings writes engine after

/-- If nothing is written, each key reads as before. -/
theorem Runs.result_get {call : Call Event Layered Unit} (h : Runs operator [] call engine after)
    (hopen : engine.OpenUnder operator) (key : Bytes) :
    (Layered.engine.get key).result after = (Layered.engine.get key).result engine := by
  obtain ⟨-, hafter, htakes⟩ := h
  exact hopen.result_get_congr hafter fun hop => htakes hop key

/-- No operator can be told from no operator by who sees nothing. -/
theorem respects_blind (operator : Option Operator) :
    Resolution.Respects operator fun _ => Reading.blind :=
  fun _ _ _ => ⟨fun _ _ => rfl, fun _ _ => rfl, fun _ _ _ => rfl⟩

/-- Nothing is done, and nothing is written. -/
theorem OpenUnder.runs_pure (h : engine.OpenUnder operator) :
    Runs operator [] (pure ()) engine engine := by
  refine ⟨Call.gives_pure () engine, h, ?_⟩
  intro α readings _ key
  rfl

/-- A batch takes its writes; whatever the chain limit does with them goes unnoticed. -/
theorem OpenUnder.runs_write (h : engine.OpenUnder operator) (batch : Batch) :
    ∃ after, Runs operator batch (write batch) engine after := by
  obtain ⟨after, hgives, hlimits⟩ := gives_write h.total batch
  have hpushed : (engine.pushed batch).OpenUnder operator :=
    ⟨h.operator_eq, h.identity_eq, ascending_pushed h.ascending batch⟩
  have hopen : after.OpenUnder operator :=
    (hlimits.sameTo (respects_blind _)).openUnder hpushed
  refine ⟨after, hgives, hopen, ?_⟩
  intro α readings hop
  -- the batch is taken as it is pushed, and the limit is not seen
  have hsame := hlimits.sameTo (hpushed.operator_eq ▸ hop)
  have htakes := (takes_pushed h.ascending batch).append (hsame.takes hpushed.ascending)
  rwa [List.append_nil] at htakes

theorem OpenUnder.runs_flush (h : engine.OpenUnder operator) :
    Runs operator [] flush engine engine.flushed := by
  refine ⟨gives_flush h.total, ?_, ?_⟩
  · exact (sameTo_flushed (respects_blind _) h.total).openUnder h
  · intro α readings hop
    exact (sameTo_flushed (h.operator_eq ▸ hop) h.total).takes h.ascending

theorem OpenUnder.runs_compact (h : engine.OpenUnder operator) :
    Runs operator [] compact engine engine.compacted := by
  refine ⟨gives_compact h.total, ?_, ?_⟩
  · exact (sameTo_compacted (respects_blind _) h.total).openUnder h
  · intro α readings hop
    exact (sameTo_compacted (h.operator_eq ▸ hop) h.total).takes h.ascending

/-- An engine opens again with its own operator, and without one it can adopt any. -/
theorem OpenUnder.runs_reopen (h : engine.OpenUnder operator) (options : Options)
    (hadopts : operator = none ∨ operator = options.operator) :
    Runs options.operator [] (reopen options) engine
      (opened engine.close.runs engine.identity options) := by
  have hmark := OperatorKind.mark_iff.mpr hadopts
  rw [← h.identity_eq] at hmark
  refine ⟨gives_reopen hmark, ?_, ?_⟩
  · rw [h.identity_eq]
    exact openUnder_reopened (ascending_close h.ascending) hadopts
  · intro α readings _ key
    rw [history_opened_close]
    rfl

end
end Layered

/-! ### Runs of scripts -/

section

variable {operator : Option OperatorKind} {engine : Layered}

/-- Under one operator every command succeeds and takes its writes. -/
theorem Command.runs_call {command : Command} (h : command.Keeps operator)
    (hopen : engine.OpenUnder operator) :
    ∃ after, Layered.Runs operator command.writes command.call engine after := by
  cases command with
  | put key value => exact hopen.runs_write [.put key value]
  | delete key => exact hopen.runs_write [.delete key]
  | merge key operand => exact hopen.runs_write [.merge key operand]
  | write batch => exact hopen.runs_write batch
  | flush => exact ⟨_, hopen.runs_flush⟩
  | compact => exact ⟨_, hopen.runs_compact⟩
  | reopen options =>
    have hsame : options.operator = operator := h
    subst hsame
    exact ⟨_, hopen.runs_reopen options (.inr rfl)⟩

namespace Script

theorem runs_call {script : Script} (h : script.Keeps operator)
    (hopen : engine.OpenUnder operator) :
    ∃ after, Layered.Runs operator script.writes script.call engine after := by
  induction script generalizing engine with
  | nil => exact ⟨engine, hopen.runs_pure⟩
  | cons command script ih =>
    obtain ⟨hcommand, hscript⟩ := List.forall_mem_cons.mp h
    obtain ⟨middle, hgives, hmiddle, htakes⟩ := Command.runs_call hcommand hopen
    obtain ⟨after, hrest, hafter, hall⟩ := ih hscript hmiddle
    exact ⟨after, hgives.bind hrest, hafter, fun hop => (htakes hop).append (hall hop)⟩

theorem call_append (older newer : Script) :
    Script.call (older ++ newer) = older.call >>= fun _ => newer.call :=
  List.forM_append

theorem run_append {options : Options} {older newer : Script} {middle after : Layered}
    (h : older.run options = .ok middle) (hnext : newer.call.Gives middle () after) :
    Script.run options (older ++ newer) = .ok after := by
  rw [run, Layered.fromEmpty_eq_ok_iff] at h ⊢
  rw [call_append]
  exact h.bind hnext

/-- Under one operator a script runs from the empty store to its end, and what it leaves
is told by its writes. -/
theorem run_eq_ok {options : Options} {script : Script} (h : script.Keeps options.operator) :
    ∃ engine, script.run options = .ok engine ∧ engine.OpenUnder options.operator ∧
      ∀ {α : Type} {readings : Bytes → Reading α},
        Resolution.Respects (options.operator.map OperatorKind.operator) readings →
          ∀ key, (readings key).meaning (engine.history key) =
            (readings key).meaning (Write.history script.writes key) := by
  obtain ⟨after, hgives, hopen, htakes⟩ := runs_call h (Layered.openUnder_opened options)
  exact ⟨after, Layered.fromEmpty_eq_ok_iff.mpr hgives, hopen, fun hop => htakes hop⟩

end Script
end

/-! ### Reachable engines -/

namespace Layered

/-- The engines that a store can be open as. -/
inductive Reachable : Layered → Prop
  /-- The store was never written. -/
  | opened {engine : Layered} (options : Options)
      (h : (ofStore Store.empty options).result = .ok engine) : Reachable engine
  /-- Something happened, whether it succeeded or not. -/
  | called {engine : Layered} (h : Reachable engine) (command : Command) :
      Reachable (command.call.after engine)

/-- Opening again with any options succeeds with the operator of the options, or fails and
leaves the engine alone. -/
theorem OpenUnder.after_reopen {operator : Option OperatorKind} {engine : Layered}
    (h : engine.OpenUnder operator) (options : Options) :
    ((reopen options).after engine).OpenUnder options.operator ∨
      (reopen options).after engine = engine := by
  rw [Layered.after_reopen]
  by_cases hadopts : operator = none ∨ operator = options.operator
  · rw [h.reopened_of_adopts hadopts, h.identity_eq]
    exact .inl (openUnder_reopened (ascending_close h.ascending) hadopts)
  · exact .inr (h.reopened_of_refuses hadopts)

/-- Every engine is open with the operator of the mark of its store. -/
theorem Reachable.openUnder {engine : Layered} (h : engine.Reachable) :
    ∃ operator, engine.OpenUnder operator := by
  induction h with
  | opened options h =>
    have hopened := h.symm.trans (result_ofStore (.inl rfl))
    obtain rfl := Except.ok.inj hopened
    exact ⟨options.operator, openUnder_opened options⟩
  | called h command ih =>
    obtain ⟨operator, hopen⟩ := ih
    by_cases hkeeps : command.Keeps operator
    · obtain ⟨after, hgives, hafter, -⟩ := Command.runs_call hkeeps hopen
      rw [hgives.2]
      exact ⟨operator, hafter⟩
    · cases command with
      | reopen options =>
        -- the only command that does not keep the operator
        rcases hopen.after_reopen options with hother | hsame
        · exact ⟨options.operator, hother⟩
        · refine ⟨operator, ?_⟩
          show ((reopen options).after _).OpenUnder operator
          rw [hsame]
          exact hopen
      | _ => exact absurd trivial hkeeps

end Layered
end LazyTally
