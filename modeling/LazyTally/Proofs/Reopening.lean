import LazyTally.Proofs.Dumping
import LazyTally.Proofs.Effects

/-!
# Closing and opening again

A memtable that is closed becomes the newest run as it is.  Unlike a flushed run it may have many
values, tombstones and operands of one key, but they are in their order, so every history is what
it was.  Opened with the same operator the store therefore reads as before.  It also goes on
reading so: whatever is done to it, an engine that was never closed shows the same, though its
layers and its limit may be others.

## Main definitions

* `Layered.ReadsAs` — two engines read alike, key by key and as a whole.
* `Layered.Alike` — no reading that their operator respects can tell two engines apart.
* `Script.unclosed` — a script without closing and opening.

## Main results

* `Layered.Alike.command`, `Layered.Alike.script` — engines that are alike stay alike.
* `Layered.Alike.unclosed` — they do even if only one of them is ever closed.
* `Layered.Reachable.reads_reopened` — what closing and opening keeps.
-/

namespace LazyTally

/-- The command closes the store. -/
def Command.closes : Command → Bool
  | reopen _ => true
  | _ => false

/-- What is left of a script if the store is not closed. -/
def Script.unclosed (script : Script) : Script := script.filter fun command => !command.closes

namespace Layered

/-- Each key reads alike in both engines, and so do all keys together. -/
def ReadsAs (other engine : Layered) : Prop :=
  (∀ key, (Layered.engine.get key).result other = (Layered.engine.get key).result engine) ∧
    Layered.engine.dump.result other = Layered.engine.dump.result engine

/-- Both engines are open with the operator, and no reading that it respects can tell them
apart. -/
structure Alike (operator : Option OperatorKind) (engine other : Layered) : Prop where
  /-- The first engine is open with the operator. -/
  opened : engine.OpenUnder operator
  /-- So is the second. -/
  opened' : other.OpenUnder operator
  /-- Every history looks the same in both. -/
  meaning : ∀ {α : Type} {readings : Bytes → Reading α},
    Resolution.Respects (operator.map OperatorKind.operator) readings → ∀ key,
      (readings key).meaning (other.history key) = (readings key).meaning (engine.history key)

section

variable {operator operator' : Option OperatorKind} {engine other after after' : Layered}

/-- Engines that are alike read alike. -/
theorem Alike.readsAs (h : Alike operator engine other) : other.ReadsAs engine := by
  have hget : ∀ key,
      (Layered.engine.get key).result other = (Layered.engine.get key).result engine := by
    intro key
    exact h.opened.result_get_congr h.opened' fun hop => h.meaning hop key
  exact ⟨hget, result_dump_congr h.opened.ascending h.opened'.ascending hget⟩

/-! ### Staying alike -/

/-- Engines that are alike stay alike when both take the same writes, in whatever way, and their
store adopts an operator at most. -/
theorem Alike.of_runs (h : Alike operator engine other)
    (hadopts : operator = none ∨ operator = operator') {writes : List Write}
    {call call' : Call Engine.Event Layered Unit} (hruns : Runs operator' writes call engine after)
    (hruns' : Runs operator' writes call' other after') : Alike operator' after after' := by
  obtain ⟨-, hafter, htakes⟩ := hruns
  obtain ⟨-, hafter', htakes'⟩ := hruns'
  refine ⟨hafter, hafter', ?_⟩
  intro α readings hop key
  have hbefore : Resolution.Respects (operator.map OperatorKind.operator) readings := by
    rcases hadopts with rfl | rfl
    · exact Resolution.respects_none readings
    · exact hop
  rw [htakes hop key, htakes' hop key, h.meaning hbefore key]

/-- Under one operator engines stay alike through every command. -/
theorem Alike.kept (h : Alike operator engine other) (command : Command)
    (hkeeps : command.Keeps operator) :
    Alike operator (command.call.after engine) (command.call.after other) := by
  obtain ⟨after, hruns⟩ := Command.runs_call hkeeps h.opened
  obtain ⟨after', hruns'⟩ := Command.runs_call hkeeps h.opened'
  rw [hruns.1.2, hruns'.1.2]
  exact h.of_runs (.inr rfl) hruns hruns'

/-- Both stores accept the options, or neither does. -/
theorem Alike.reopened (h : Alike operator engine other) (options : Options) :
    ∃ operator', Alike operator' (engine.reopened options) (other.reopened options) := by
  by_cases hadopts : operator = none ∨ operator = options.operator
  · rw [h.opened.reopened_of_adopts hadopts, h.opened'.reopened_of_adopts hadopts]
    exact ⟨options.operator, h.of_runs hadopts (h.opened.runs_reopen options hadopts)
      (h.opened'.runs_reopen options hadopts)⟩
  · rw [h.opened.reopened_of_refuses hadopts, h.opened'.reopened_of_refuses hadopts]
    exact ⟨operator, h⟩

/-- Engines stay alike through every command, also one that fails. -/
theorem Alike.command (h : Alike operator engine other) (command : Command) :
    ∃ operator', Alike operator' (command.call.after engine) (command.call.after other) := by
  by_cases hkeeps : command.Keeps operator
  · exact ⟨operator, h.kept command hkeeps⟩
  · cases command with
    | reopen options =>
      -- the only command that does not keep the operator
      have hreopened := h.reopened options
      rw [← Layered.after_reopen, ← Layered.after_reopen] at hreopened
      exact hreopened
    | _ => exact absurd trivial hkeeps

/-- Engines stay alike through every script. -/
theorem Alike.script (h : Alike operator engine other) (script : Script) :
    ∃ operator', Alike operator' (script.after engine) (script.after other) := by
  induction script generalizing operator engine other with
  | nil => exact ⟨operator, h⟩
  | cons command script ih =>
    obtain ⟨operator', hcommand⟩ := h.command command
    exact ih hcommand

/-- Under one operator engines stay alike if only one of them is ever closed. -/
theorem Alike.unclosed (h : Alike operator engine other) {script : Script}
    (hkeeps : script.Keeps operator) :
    Alike operator (script.unclosed.after engine) (script.after other) := by
  induction script generalizing engine other with
  | nil => exact h
  | cons command script ih =>
    obtain ⟨hcommand, hscript⟩ := List.forall_mem_cons.mp hkeeps
    have hnext := Command.runs_call hcommand h.opened'
    rw [Script.after_cons, Script.unclosed, List.filter_cons]
    cases hcloses : command.closes with
    | false => exact ih (h.kept command hcommand) hscript
    | true =>
      -- the engine that is closed has not taken anything
      have hnothing : command.writes = [] := by
        cases command with
        | reopen options => rfl
        | _ => exact nomatch hcloses
      obtain ⟨after', hruns'⟩ := hnext
      rw [hnothing] at hruns'
      rw [hruns'.1.2]
      exact ih (h.of_runs (.inr rfl) h.opened.runs_pure hruns') hscript

/-! ### What closing and opening keeps -/

theorem length_runs_close (engine : Layered) :
    engine.close.runs.length = engine.runs.length + if engine.memtable = [] then 0 else 1 := by
  unfold close
  by_cases hempty : engine.memtable = []
  · simp [hempty]
  · simp [hempty]

/-- A reachable engine that is closed can be opened with the operator that it has, whatever its
limit is then.  Its memtable, unless it was empty, has become a run, and each key has its history.
So the engine reads as before, and after any further script as one that was never closed, be it
that the script is run on both alike or that the other is not closed by the script either. -/
theorem Reachable.reads_reopened (h : engine.Reachable) (options : Options)
    (hoperator : options.operator.map OperatorKind.operator = engine.operator) :
    ∃ opened : Layered, (ofStore engine.close options).result = .ok opened ∧
      opened.memtable = [] ∧
      opened.runs.length = engine.runs.length + (if engine.memtable = [] then 0 else 1) ∧
      (∀ key, opened.history key = engine.history key ∧
        opened.pendingOperands key = engine.pendingOperands key) ∧
      opened.ReadsAs engine ∧
      ∀ script : Script, (script.after opened).ReadsAs (script.after engine) ∧
        (script.Keeps options.operator →
          (script.after opened).ReadsAs (script.unclosed.after engine)) := by
  obtain ⟨operator, hopen⟩ := h.openUnder
  -- operators on counters differ in their names
  obtain rfl : operator = options.operator := by
    rw [hopen.operator_eq] at hoperator
    exact (Option.map_injective OperatorKind.operator_injective hoperator).symm
  have haccepts : engine.close.operator = none ∨ engine.close.operator = options.operatorName? :=
    .inr hopen.identity_eq
  have hruns := hopen.runs_reopen options (.inr rfl)
  have hhistory := history_opened_close engine engine.identity options
  have halike : Alike options.operator engine
      (Layered.opened engine.close.runs engine.identity options) := by
    have hself : Alike options.operator engine engine := ⟨hopen, hopen, fun _ _ => rfl⟩
    exact hself.of_runs (.inr rfl) hopen.runs_pure hruns
  refine ⟨Layered.opened engine.close.runs engine.identity options, result_ofStore haccepts, rfl,
    length_runs_close engine, ?_, halike.readsAs, ?_⟩
  · intro key
    refine ⟨hhistory key, ?_⟩
    simp only [Layers.pendingOperands, Layers.chain, hhistory key]
  · intro script
    obtain ⟨operator', hscript⟩ := halike.script script
    exact ⟨hscript.readsAs, fun hkeeps => (halike.unclosed hkeeps).readsAs⟩

/-- A memtable with a value, a tombstone and operands of one key is closed, and its store opened
under another limit.  Later writes, a flush, a second closing and a compaction show the same as if
the first engine had stayed open all the time. -/
theorem Reachable.reads_reopened_twice :
    let past : Script :=
      [.merge [2] [9], .flush, .put [1] [7], .delete [1], .write [.merge [1] [5], .merge [2] [6]]]
    let engine := Script.after past (Layered.opened [] none ⟨some .associative, 1, true⟩)
    let script : Script :=
      [.merge [1] [3], .flush, .merge [1] [4], .reopen ⟨some .associative, 0, true⟩, .compact]
    engine.Reachable ∧ script.Keeps (some .associative) ∧
      ∃ opened : Layered,
        (ofStore engine.close ⟨some .associative, 3, false⟩).result = .ok opened ∧
        opened.memtable = [] ∧ opened.runs.length = 2 ∧ opened.pendingOperands [2] = 2 ∧
        (script.after opened).ReadsAs (script.after engine) ∧
        (script.after opened).ReadsAs (script.unclosed.after engine) := by
  intro past engine script
  have hempty : Reachable (Layered.opened [] none ⟨some .associative, 1, true⟩) :=
    .opened ⟨some .associative, 1, true⟩ (result_ofStore (.inl rfl))
  have hreachable := hempty.after past
  have hkeeps : script.Keeps (some .associative) := by decide
  have hlength : engine.runs.length = 1 ∧ engine.memtable ≠ [] := by decide
  have hpending : engine.pendingOperands [2] = 2 := by decide
  obtain ⟨opened, hopened, hmemtable, hruns, hkeys, -, hscript⟩ :=
    Reachable.reads_reopened hreachable ⟨some .associative, 3, false⟩ rfl
  obtain ⟨hsame, hunclosed⟩ := hscript script
  rw [hlength.1, if_neg hlength.2] at hruns
  exact ⟨hreachable, hkeeps, opened, hopened, hmemtable, hruns, (hkeys [2]).2.trans hpending,
    hsame, hunclosed hkeeps⟩

end
end Layered
end LazyTally
