import Mathlib.Logic.Function.Basic
import LazyTally.Counters
import LazyTally.Proofs.Script

/-!
# Counters are a tally

Whoever writes an engine through the counters only sees a tally: a map from keys to
numbers that wrap at 2^64.  The two ways of adding can be mixed freely; they differ in
what they take an absent counter for, zero or the default.

## Main definitions

* `Tally` — a map from keys to numbers.
* `Counters.Command` — what can happen to an engine that only counters write.
* `Counters.Command.call`, `Counters.Command.next` — what it does to the engine and to the
  tally.
* `Counters.Shows` — readings through which the tally can be seen.

## Main results

* `Counters.gives_call` — a command succeeds, and the engine goes on showing the tally.
* `Counters.get_run_eq_tally` — after every beginning of a script each counter reads as
  the tally says.
-/

namespace LazyTally

/-- A map from keys to numbers. -/
abbrev Tally := Bytes → Option UInt64

namespace Counters

open Counter (encode)

/-! ### Commands -/

/-- What can happen to an engine that only counters write. -/
inductive Command where
  /-- A counter is given a value. -/
  | set (strategy : Strategy) (key : Bytes) (value : UInt64)
  /-- A counter is removed. -/
  | remove (strategy : Strategy) (key : Bytes)
  /-- A counter is added to. -/
  | add (strategy : Strategy) (key : Bytes) (delta : UInt64)
  /-- The memtable is flushed. -/
  | flush
  /-- The runs are compacted. -/
  | compact
  /-- The engine is closed, and its store opened again. -/
  | reopen (options : Options)
  deriving DecidableEq, Repr

/-- The counters in the layered engine. -/
def layered (default : UInt64) (strategy : Strategy) : Counters Layered :=
  ⟨Layered.engine, default, strategy⟩

namespace Command

/-- What a command does to the engine. -/
def call (default : UInt64) : Command → Call Event Layered Unit
  | set strategy key value => (layered default strategy).set key value
  | remove strategy key => (layered default strategy).remove key
  | add strategy key delta => (layered default strategy).add key delta
  | flush => Layered.engine.flush.relabel Event.engine
  | compact => Layered.engine.compact.relabel Event.engine
  | reopen options => (Layered.reopen options).relabel Event.engine

/-- What an absent counter is taken for when it is added to. -/
def absent (default : UInt64) : Strategy → UInt64
  | .readModifyWrite => default
  | .merge => 0

/-- What a command does to the tally. -/
def next (default : UInt64) (tally : Tally) : Command → Tally
  | set _ key value => Function.update tally key (some value)
  | remove _ key => Function.update tally key none
  | add strategy key delta =>
      Function.update tally key (some ((tally key).getD (absent default strategy) + delta))
  | flush | compact | reopen _ => tally

/-- The store is not opened with another operator, and without one nothing is merged. -/
def Keeps (operator : Option OperatorKind) : Command → Prop
  | add strategy _ _ => operator = none → strategy = .readModifyWrite
  | reopen options => options.operator = operator
  | _ => True

instance (operator : Option OperatorKind) : DecidablePred (Keeps operator) := fun command => by
  cases command <;> unfold Keeps <;> infer_instance

/-- The same command, given through counters of another strategy. -/
def through (strategy : Strategy) : Command → Command
  | set _ key value => set strategy key value
  | remove _ key => remove strategy key
  | add _ key delta => add strategy key delta
  | flush => flush
  | compact => compact
  | reopen options => reopen options

end Command

/-- What happens to the counters, in order. -/
abbrev Script := List Command

namespace Script

/-- The engine that a script leaves of a store that was never written. -/
def run (default : UInt64) (options : Options) (script : Script) : Except Failure Layered :=
  Layered.fromEmpty options (script.forM (Command.call default))

/-- The tally that a script leaves of an empty one. -/
def tally (default : UInt64) (script : Script) : Tally :=
  script.foldl (Command.next default) fun _ => none

/-- The store is not opened with another operator, and without one nothing is merged. -/
def Keeps (operator : Option OperatorKind) (script : Script) : Prop :=
  ∀ command ∈ script, command.Keeps operator

instance (operator : Option OperatorKind) (script : Script) : Decidable (script.Keeps operator) :=
  inferInstanceAs (Decidable (∀ command ∈ script, command.Keeps operator))

end Script

/-! ### Seeing the tally -/

/-- Through the readings the tally can be seen in an engine under the operator. -/
structure Shows {α : Type} (operator : Option OperatorKind) (readings : Bytes → Reading α) :
    Prop where
  /-- The readings cannot tell when the operator merges. -/
  respects : Resolution.Respects (operator.map OperatorKind.operator) readings
  /-- What is seen as a value is read as that value. -/
  get : ∀ {engine : Layered} {key : Bytes} {value : Option Bytes}, engine.OpenUnder operator →
    (readings key).meaning (engine.history key) = (readings key).value value →
    (Layered.engine.get key).result engine = .ok value
  /-- If there is an operator, a merged counter is seen as the sum. -/
  merge : operator ≠ none → ∀ (key : Bytes) (stored : Option UInt64) (delta : UInt64),
    (readings key).merge ((readings key).value (stored.map encode)) (encode delta) =
      (readings key).value (some (encode (stored.getD 0 + delta)))

theorem shows_stepwise (kind : OperatorKind) : Shows (some kind) kind.operator.stepwise where
  respects := Resolution.respects_stepwise kind
  get hopen hmeaning := (hopen.result_get _).trans (congrArg Except.ok hmeaning)
  merge _ key stored delta := kind.merge_stepwise_encode key stored delta

theorem shows_waiting : Shows none fun _ => Reading.waiting where
  respects := Resolution.respects_none _
  get := by
    intro engine key value hopen hmeaning
    have hread := (hopen.result_get_waiting hmeaning).2
    rwa [if_neg (Nat.lt_irrefl 0)] at hread
  merge hne := absurd rfl hne

/-- Through the readings the engine shows the tally. -/
def Shown {α : Type} (readings : Bytes → Reading α) (tally : Tally) (engine : Layered) : Prop :=
  ∀ key, (readings key).meaning (engine.history key) =
    (readings key).value ((tally key).map encode)

section

variable {α : Type} {operator : Option OperatorKind} {readings : Bytes → Reading α}
  {tally : Tally} {engine after : Layered}

theorem Shown.still (h : Shown readings tally engine)
    (htakes : Layered.Takes readings [] engine after) : Shown readings tally after :=
  fun key => (htakes key).trans (h key)

/-- A write changes what is shown of its own key and of no other. -/
theorem Shown.write (h : Shown readings tally engine) {write : Write} {stored : Option UInt64}
    (htakes : Layered.Takes readings [write] engine after)
    (hnext : (readings write.key).next ((readings write.key).value ((tally write.key).map encode))
      write.record = (readings write.key).value (stored.map encode)) :
    Shown readings (Function.update tally write.key stored) after := by
  refine htakes.meaning_of_single h ?_ ?_
  · rw [Function.update_self]
    exact hnext
  · intro key hne
    rw [Function.update_of_ne hne]

/-! ### What the calls give -/

/-- A call that succeeds on the engine is passed on as it is. -/
theorem gives_issue {σ β : Type} {call : Call Engine.Event σ β} {state after : σ} {b : β}
    (h : call.Gives state b after) (action : Action) (key : Bytes) :
    (issue action key call).Gives state b after :=
  (h.relabel Event.engine).caught.bind (Call.gives_pure b after)

/-- A write that is issued through the counters is passed on as it is. -/
theorem gives_write (hopen : engine.OpenUnder operator) (action : Action) (write : Write) :
    ∃ after, Call.Gives
        (report (Event.writing write.key) >>= fun _ =>
          issue action write.key (Layered.write [write])) engine () after ∧
      after.OpenUnder operator ∧
      ∀ {β : Type} {readings : Bytes → Reading β},
        Resolution.Respects (operator.map OperatorKind.operator) readings →
          Layered.Takes readings [write] engine after := by
  obtain ⟨after, hgives, hafter, htakes⟩ := hopen.runs_write [write]
  exact ⟨after, (Call.gives_report _ engine).bind (gives_issue hgives action write.key), hafter,
    fun hop => htakes hop⟩

/-- A counter that the engine has, or does not have, is read as it is, and nothing changes. -/
theorem gives_get_of_stored {key : Bytes} {stored : Option UInt64}
    (h : (Layered.engine.get key).result engine = .ok (stored.map encode)) (default : UInt64)
    (strategy : Strategy) :
    ((layered default strategy).get key).Gives engine (stored.getD default) engine := by
  have hread : (Layered.engine.get key).Gives engine (stored.map encode) engine := ⟨h, rfl⟩
  refine (Call.gives_report _ engine).bind ((gives_issue hread .get key).bind ?_)
  cases stored with
  | none => exact Call.gives_pure _ engine
  | some value =>
    show (decode _ key (some (encode value))).Gives engine value engine
    rw [decode, Counter.decode?_encode]
    exact Call.gives_pure value engine

/-- A counter reads as the tally says, whatever the strategy, and nothing changes. -/
theorem Shown.gives_get (h : Shown readings tally engine) (hshows : Shows operator readings)
    (hopen : engine.OpenUnder operator) (default : UInt64) (strategy : Strategy) (key : Bytes) :
    ((layered default strategy).get key).Gives engine ((tally key).getD default) engine :=
  gives_get_of_stored (hshows.get hopen (h key)) default strategy

theorem Shown.gives_set (h : Shown readings tally engine) (hshows : Shows operator readings)
    (hopen : engine.OpenUnder operator) (default : UInt64) (strategy : Strategy) (key : Bytes)
    (value : UInt64) :
    ∃ after, ((layered default strategy).set key value).Gives engine () after ∧
      after.OpenUnder operator ∧ Shown readings (Function.update tally key (some value)) after := by
  obtain ⟨after, hgives, hafter, htakes⟩ := gives_write hopen .set (.put key (encode value))
  exact ⟨after, hgives, hafter, h.write (htakes hshows.respects) rfl⟩

theorem Shown.gives_remove (h : Shown readings tally engine) (hshows : Shows operator readings)
    (hopen : engine.OpenUnder operator) (default : UInt64) (strategy : Strategy) (key : Bytes) :
    ∃ after, ((layered default strategy).remove key).Gives engine () after ∧
      after.OpenUnder operator ∧ Shown readings (Function.update tally key none) after := by
  obtain ⟨after, hgives, hafter, htakes⟩ := gives_write hopen .remove (.delete key)
  exact ⟨after, hgives, hafter, h.write (htakes hshows.respects) rfl⟩

/-- A counter that is added to shows the sum; an absent one counts as what the strategy
takes it for. -/
theorem Shown.gives_add (h : Shown readings tally engine) (hshows : Shows operator readings)
    (hopen : engine.OpenUnder operator) (default : UInt64) {strategy : Strategy}
    (hstrategy : operator = none → strategy = .readModifyWrite) (key : Bytes) (delta : UInt64) :
    ∃ after, ((layered default strategy).add key delta).Gives engine () after ∧
      after.OpenUnder operator ∧
        Shown readings (Function.update tally key
          (some ((tally key).getD (Command.absent default strategy) + delta))) after := by
  cases strategy with
  | readModifyWrite =>
    -- the counter is read as the tally says, and the sum is set
    obtain ⟨after, hgives, hafter, hshown⟩ :=
      h.gives_set hshows hopen default .readModifyWrite key ((tally key).getD default + delta)
    exact ⟨after, (h.gives_get hshows hopen default .readModifyWrite key).bind hgives, hafter,
      hshown⟩
  | merge =>
    -- the addend is merged, and seen as the sum with what is stored or zero
    have hsome : operator ≠ none := fun hnone => nomatch hstrategy hnone
    obtain ⟨after, hgives, hafter, htakes⟩ := gives_write hopen .add (.merge key (encode delta))
    refine ⟨after, hgives, hafter, ?_⟩
    exact h.write (htakes hshows.respects) (hshows.merge hsome key (tally key) delta)

/-- A call on the engine that writes nothing does not change what it shows. -/
theorem Shown.rearranged (h : Shown readings tally engine) (hshows : Shows operator readings)
    {call : Call Engine.Event Layered Unit} (hruns : Layered.Runs operator [] call engine after) :
    ∃ after, (call.relabel Event.engine).Gives engine () after ∧ after.OpenUnder operator ∧
      Shown readings tally after := by
  obtain ⟨hgives, hafter, htakes⟩ := hruns
  exact ⟨after, hgives.relabel Event.engine, hafter, h.still (htakes hshows.respects)⟩

/-- A command succeeds, and the engine goes on showing the tally. -/
theorem Shown.gives_call (h : Shown readings tally engine) (hshows : Shows operator readings)
    (hopen : engine.OpenUnder operator) (default : UInt64) {command : Command}
    (hkeeps : command.Keeps operator) :
    ∃ after, (command.call default).Gives engine () after ∧ after.OpenUnder operator ∧
      Shown readings (command.next default tally) after := by
  cases command with
  | set strategy key value => exact h.gives_set hshows hopen default strategy key value
  | remove strategy key => exact h.gives_remove hshows hopen default strategy key
  | add strategy key delta => exact h.gives_add hshows hopen default hkeeps key delta
  | flush => exact h.rearranged hshows hopen.runs_flush
  | compact => exact h.rearranged hshows hopen.runs_compact
  | reopen options =>
    -- the store is opened with the operator that it has
    have hsame : options.operator = operator := hkeeps
    subst hsame
    exact h.rearranged hshows (hopen.runs_reopen options (.inr rfl))

theorem Shown.gives_forM (h : Shown readings tally engine) (hshows : Shows operator readings)
    (hopen : engine.OpenUnder operator) (default : UInt64) {script : Script}
    (hkeeps : script.Keeps operator) :
    ∃ after, Call.Gives (script.forM (Command.call default)) engine () after ∧
      after.OpenUnder operator ∧
        Shown readings (script.foldl (Command.next default) tally) after := by
  induction script generalizing tally engine with
  | nil => exact ⟨engine, Call.gives_pure () engine, hopen, h⟩
  | cons command script ih =>
    obtain ⟨hcommand, hscript⟩ := List.forall_mem_cons.mp hkeeps
    obtain ⟨middle, hgives, hmiddle, hshown⟩ := h.gives_call hshows hopen default hcommand
    obtain ⟨after, hrest, hafter, hall⟩ := ih hshown hmiddle hscript
    exact ⟨after, hgives.bind hrest, hafter, hall⟩

end

/-- A script from the empty store succeeds, and then each counter reads as the tally says. -/
theorem run_eq_ok (default : UInt64) {options : Options} {script : Script}
    (hkeeps : script.Keeps options.operator) :
    ∃ engine, script.run default options = .ok engine ∧ ∀ strategy key,
      ((layered default strategy).get key).result engine =
        .ok ((script.tally default key).getD default) := by
  -- with an operator its stepwise value is seen, without one the value and what waits
  suffices h : ∀ {α : Type} {readings : Bytes → Reading α}, Shows options.operator readings →
      ∃ engine, script.run default options = .ok engine ∧ ∀ strategy key,
        ((layered default strategy).get key).result engine =
          .ok ((script.tally default key).getD default) by
    cases hoperator : options.operator with
    | none => exact h (hoperator ▸ shows_waiting)
    | some kind => exact h (hoperator ▸ shows_stepwise kind)
  intro α readings hshows
  have hempty : Shown readings (fun _ => none) (Layered.opened [] none options) := fun _ => rfl
  obtain ⟨engine, hgives, hopen, hshown⟩ :=
    hempty.gives_forM hshows (Layered.openUnder_opened options) default hkeeps
  refine ⟨engine, Layered.fromEmpty_eq_ok_iff.mpr hgives, ?_⟩
  intro strategy key
  exact (hshown.gives_get hshows hopen default strategy key).1

/-! ### One strategy for another -/

/-- If absent counters read as zero, the strategy does not matter to the tally. -/
theorem tally_map_through (strategy : Strategy) (script : Script) :
    Script.tally 0 (script.map (Command.through strategy)) = script.tally 0 := by
  unfold Script.tally
  rw [List.foldl_map]
  congr 1
  funext tally command
  cases command with
  | add given key delta => cases strategy <;> cases given <;> rfl
  | _ => rfl

theorem keeps_map_through {operator : Option OperatorKind} (hsome : operator ≠ none)
    (strategy : Strategy) {script : Script} (h : script.Keeps operator) :
    Script.Keeps operator (script.map (Command.through strategy)) := by
  intro other hmem
  obtain ⟨command, hcommand, rfl⟩ := List.mem_map.mp hmem
  have hkeeps := h command hcommand
  cases command with
  | add given key delta => exact fun hnone => absurd hnone hsome
  | reopen options => exact hkeeps
  | _ => trivial

/-- After every beginning of a script, with whatever strategies and chain limits, each
counter reads as the tally says, and as the default if it is absent.  If the default is
zero, nobody can tell a script from the same one with another strategy throughout. -/
theorem get_run_eq_tally (default : UInt64) {options : Options} {script : Script}
    (hkeeps : script.Keeps options.operator) :
    (∀ done : Script, done <+: script → ∃ engine, done.run default options = .ok engine ∧
      ∀ strategy key, ((layered default strategy).get key).result engine =
        .ok ((done.tally default key).getD default)) ∧
    (default = 0 → options.operator ≠ none → ∀ strategy, ∃ engine other,
      script.run default options = .ok engine ∧
      Script.run default options (script.map (Command.through strategy)) = .ok other ∧
      ∀ reader key, ((layered default reader).get key).result engine =
        ((layered default reader).get key).result other) := by
  constructor
  · intro done hdone
    exact run_eq_ok default fun command hmem => hkeeps command (hdone.subset hmem)
  · -- from a default of zero an absent counter is added to alike by both strategies
    rintro rfl hsome strategy
    obtain ⟨engine, hrun, hget⟩ := run_eq_ok 0 hkeeps
    obtain ⟨other, hother, hsame⟩ := run_eq_ok 0 (keeps_map_through hsome strategy hkeeps)
    refine ⟨engine, other, hrun, hother, ?_⟩
    intro reader key
    rw [hget reader key, hsame reader key, tally_map_through]

/-- Both strategies meet on one key, a sum wraps, and an absent counter counts as the
default for one strategy and as zero for the other. -/
theorem get_run_eq_tally_mixed :
    let options : Options := ⟨some .fullPartial, 1, true⟩
    let script : Script :=
      [.add .merge [1] 5, .flush, .add .readModifyWrite [1] 18446744073709551615,
        .add .merge [1] 2, .add .merge [1] 3, .add .readModifyWrite [2] 1,
        .reopen ⟨some .fullPartial, 0, true⟩, .remove .merge [3], .add .merge [3] 1, .compact]
    script.Keeps options.operator ∧ ∃ engine, script.run 10 options = .ok engine ∧
      ((layered 10 .merge).get [1]).result engine = .ok 9 ∧
      ((layered 10 .merge).get [2]).result engine = .ok 11 ∧
      ((layered 10 .merge).get [3]).result engine = .ok 1 ∧
      ((layered 10 .merge).get [4]).result engine = .ok 10 := by
  intro options script
  have hkeeps : script.Keeps options.operator := by decide
  obtain ⟨hall, -⟩ := get_run_eq_tally 10 hkeeps
  obtain ⟨engine, hrun, hget⟩ := hall script List.prefix_rfl
  refine ⟨hkeeps, engine, hrun, ?_, ?_, ?_, ?_⟩
  · exact (hget .merge [1]).trans (congrArg Except.ok (by decide))
  · exact (hget .merge [2]).trans (congrArg Except.ok (by decide))
  · exact (hget .merge [3]).trans (congrArg Except.ok (by decide))
  · exact (hget .merge [4]).trans (congrArg Except.ok (by decide))

end Counters
end LazyTally
