import LazyTally.Proofs.Effects
import LazyTally.Proofs.KeyRange
import LazyTally.Proofs.Resolved
import LazyTally.Proofs.Totals
import LazyTally.Proofs.Turns

/-!
# What counters get from workers

An add to a counter changes what is read of it, and nothing else.  This holds whatever is stored
under other keys, if only the counter itself holds a number or nothing: an operator that merges
the addend or a read and a write come to the same, except for what an absent counter is taken for.

So the counters of a workload get what its workers add.  What they have got at any time is said as
a tally, and a worker that takes a turn adds to it what its own report gets in that turn.

## Main definitions

* `Workload.Setting` — an engine on which a workload can be run, with what its counters hold.
* `Workload.Setting.Gained` — what the counters have got since.
* `Workload.Worker.Sound` — a worker whose adds have all succeeded so far.

## Main results

* `Counters.gives_add_of_stored` — what an add changes.
* `Workload.Setting.Gained.gives_add` — the counters get what is added.
* `Workload.Worker.Sound.gives_turn`, `Workload.Worker.Sound.gives_turns` — and so they do in the
  turns of a worker.
-/

namespace LazyTally

open Counter (encode)
open Counters (layered)

/-! ### Adding to one counter -/

section

variable {operator : Option OperatorKind} {engine after : Layered}

/-- A write does not change what is read of other keys. -/
theorem Layered.OpenUnder.result_get_of_ne (h : engine.OpenUnder operator)
    (hafter : after.OpenUnder operator) {write : Write}
    (htakes : ∀ {α : Type} {readings : Bytes → Reading α},
      Resolution.Respects (operator.map OperatorKind.operator) readings →
        Layered.Takes readings [write] engine after) {key : Bytes} (hne : key ≠ write.key) :
    (Layered.engine.get key).result after = (Layered.engine.get key).result engine :=
  h.result_get_congr hafter fun hop => (htakes hop).meaning_of_ne hne

/-- A counter that is set reads as it was set. -/
theorem Counters.result_get_set (hafter : after.OpenUnder operator) {key : Bytes} {value : UInt64}
    (htakes : ∀ {α : Type} {readings : Bytes → Reading α},
      Resolution.Respects (operator.map OperatorKind.operator) readings →
        Layered.Takes readings [.put key (encode value)] engine after) :
    (Layered.engine.get key).result after = .ok (some (encode value)) := by
  have hseen : ∀ {α : Type} {readings : Bytes → Reading α}, Counters.Shows operator readings →
      (Layered.engine.get key).result after = .ok (some (encode value)) := by
    intro α readings hshows
    exact hshows.get hafter (htakes hshows.respects).meaning_self
  cases operator with
  | none => exact hseen Counters.shows_waiting
  | some kind => exact hseen (Counters.shows_stepwise kind)

/-- A merged counter reads as the sum. -/
theorem Counters.result_get_merge {kind : OperatorKind} (hopen : engine.OpenUnder (some kind))
    (hafter : after.OpenUnder (some kind)) {key : Bytes} {stored : Option UInt64} {delta : UInt64}
    (hget : (Layered.engine.get key).result engine = .ok (stored.map encode))
    (htakes : Layered.Takes kind.operator.stepwise [.merge key (encode delta)] engine after) :
    (Layered.engine.get key).result after = .ok (some (encode (stored.getD 0 + delta))) := by
  have hseen : (kind.operator.stepwise key).meaning (engine.history key) = stored.map encode :=
    Except.ok.inj ((hopen.result_get key).symm.trans hget)
  have hself : (kind.operator.stepwise key).meaning (after.history key) =
      some (encode (stored.getD 0 + delta)) := by
    rw [← kind.merge_stepwise_encode key stored delta, ← hseen]
    exact htakes.meaning_self
  rw [hafter.result_get key, hself]

/-- An add to a counter succeeds, whatever is stored elsewhere: the counter reads as the sum, an
absent one counting as what the strategy takes it for, and no other key changes. -/
theorem Counters.gives_add_of_stored (hopen : engine.OpenUnder operator) (default : UInt64)
    {strategy : Strategy} (hstrategy : operator = none → strategy = .readModifyWrite)
    {key : Bytes} {stored : Option UInt64}
    (hget : (Layered.engine.get key).result engine = .ok (stored.map encode)) (delta : UInt64) :
    ∃ after, ((layered default strategy).add key delta).Gives engine () after ∧
      after.OpenUnder operator ∧
      (Layered.engine.get key).result after =
        .ok (some (encode (stored.getD (Command.absent default strategy) + delta))) ∧
      ∀ other, other ≠ key →
        (Layered.engine.get other).result after = (Layered.engine.get other).result engine := by
  cases strategy with
  | readModifyWrite =>
    -- the counter is read, and the sum is set
    obtain ⟨after, hset, hafter, htakes⟩ :=
      gives_write hopen .set (.put key (encode (stored.getD default + delta)))
    have hread := gives_get_of_stored hget default .readModifyWrite
    refine ⟨after, hread.bind hset, hafter, result_get_set hafter htakes, ?_⟩
    intro other hne
    exact hopen.result_get_of_ne hafter htakes hne
  | merge =>
    obtain ⟨after, hmerge, hafter, htakes⟩ := gives_write hopen .add (.merge key (encode delta))
    refine ⟨after, hmerge, hafter, ?_, ?_⟩
    · cases operator with
      | none => cases hstrategy rfl
      | some kind =>
        have hstepwise := htakes (Resolution.respects_stepwise kind)
        exact result_get_merge hopen hafter hget hstepwise
    · intro other hne
      exact hopen.result_get_of_ne hafter htakes hne

end

namespace Workload

/-! ### What the counters have got -/

/-- The key is that of a counter of the workload. -/
def Config.IsCounter (config : Config) (key : Bytes) : Prop :=
  ∃ index < config.keySpace, key = storageKey index

/-- An engine on which a workload can be run: its counters hold numbers, or nothing. -/
structure Setting where
  /-- What an absent counter reads as. -/
  default : UInt64
  /-- How a counter is added to. -/
  strategy : Counters.Strategy
  /-- What the workload does. -/
  config : Config
  /-- The engine before the workload. -/
  engine : Layered
  /-- The operator of the engine. -/
  operator : Option OperatorKind
  /-- What the counters hold. -/
  held : Tally
  /-- The engine is open with the operator. -/
  openUnder : engine.OpenUnder operator
  /-- Without an operator nothing is merged. -/
  strategy_eq : operator = none → strategy = .readModifyWrite
  /-- There is a counter. -/
  keySpace_pos : 0 < config.keySpace
  /-- The counters can be read. -/
  result_get : ∀ key, config.IsCounter key →
    (Layered.engine.get key).result engine = .ok ((held key).map encode)

namespace Setting

/-- The counters through which the workers add. -/
def counters (setting : Setting) : Counters Layered := layered setting.default setting.strategy

/-- What an absent counter is taken for by an add. -/
def absent (setting : Setting) : UInt64 :=
  Counters.Command.absent setting.default setting.strategy

/-- What a key reads as once it has got a total, or if it has got nothing. -/
def read (setting : Setting) (key : Bytes) : Option UInt64 → Except Failure (Option Bytes)
  | none => (Layered.engine.get key).result setting.engine
  | some total => .ok (some (encode ((setting.held key).getD setting.absent + total)))

/-- The counters have got these totals since the workload began, and nothing else has changed. -/
structure Gained (setting : Setting) (gain : Tally) (now : Layered) : Prop where
  /-- The engine is still open with its operator. -/
  openUnder : now.OpenUnder setting.operator
  /-- Only counters of the workload have got something. -/
  isCounter : ∀ key total, gain key = some total → setting.config.IsCounter key
  /-- Each key reads as it did, or as the sum of what it held and has got. -/
  result_get : ∀ key, (Layered.engine.get key).result now = setting.read key (gain key)

variable {setting : Setting} {gain rest : Tally} {now : Layered}

theorem gained_nothing (setting : Setting) : setting.Gained Tally.nothing setting.engine :=
  ⟨setting.openUnder, nofun, fun _ => rfl⟩

/-- A counter holds a number or nothing at any time, which with what an absent counter is taken
for is what it held before and has got since. -/
theorem Gained.exists_stored (h : setting.Gained gain now) {key : Bytes}
    (hkey : setting.config.IsCounter key) :
    ∃ stored : Option UInt64,
      (Layered.engine.get key).result now = .ok (stored.map encode) ∧
      stored.getD setting.absent =
        (setting.held key).getD setting.absent + (gain key).getD 0 := by
  rw [h.result_get key]
  cases gain key with
  | none => exact ⟨setting.held key, setting.result_get key hkey, (UInt64.add_zero _).symm⟩
  | some total => exact ⟨some _, rfl, rfl⟩

/-- An add to a counter succeeds, and the counter has got its addend. -/
theorem Gained.gives_add (h : setting.Gained gain now) {key : Bytes}
    (hkey : setting.config.IsCounter key) (delta : UInt64) :
    ∃ after, (setting.counters.add key delta).Gives now () after ∧
      setting.Gained (gain.join (Tally.single key delta)) after := by
  obtain ⟨stored, hstored, hsum⟩ := h.exists_stored hkey
  obtain ⟨after, hgives, hafter, hself, hothers⟩ :=
    Counters.gives_add_of_stored h.openUnder setting.default setting.strategy_eq hstored delta
  refine ⟨after, hgives, hafter, ?_, ?_⟩
  · intro k total htotal
    rw [Tally.join_single] at htotal
    by_cases hk : key = k
    · exact hk ▸ hkey
    · rw [if_neg hk] at htotal
      exact h.isCounter k total htotal
  · intro k
    rw [Tally.join_single]
    by_cases hk : key = k
    · -- what was held, what was gained before and what is added now, summed in this order
      subst hk
      have hvalue : stored.getD setting.absent + delta =
          (setting.held key).getD setting.absent + ((gain key).getD 0 + delta) := by
        rw [hsum, UInt64.add_assoc]
      rw [if_pos rfl, hself]
      exact congrArg (fun value => Except.ok (some (encode value))) hvalue
    · -- no other counter is read differently
      rw [if_neg hk, hothers k (Ne.symm hk), h.result_get k]

end Setting

/-! ### What a worker reports -/

namespace Worker

/-- The report of a worker that has not ended with an error. -/
def report (worker : Worker) : Report :=
  match worker.outcome with
  | .ok report => report
  | .error _ => Report.empty

/-- All adds of the worker have succeeded so far. -/
structure Sound (config : Config) (worker : Worker) : Prop where
  /-- There was no error. -/
  outcome_eq : worker.outcome = .ok worker.report
  /-- All adds are reported. -/
  full : worker.report.Full worker.issued
  /-- There are not more of them than configured. -/
  issued_le : worker.issued ≤ config.opsPerWorker.toNat
  /-- The next add is to a counter of the workload. -/
  within : worker.source.Within config.keySpace

theorem sound_start {config : Config} (h : 0 < config.keySpace) (number : Nat) :
    (start config number).Sound config :=
  ⟨rfl, ⟨rfl, rfl, Report.ordered_empty⟩, Nat.zero_le _, within_keySource h number⟩

variable {setting : Setting} {rest : Tally} {now : Layered} {worker : Worker}

/-- In a turn of a worker the counters get what its report gets, whatever they got besides. -/
theorem Sound.gives_turn (h : worker.Sound setting.config)
    (hgained : setting.Gained (rest.join worker.report.totals) now) :
    ∃ moved after, (worker.turn setting.counters setting.config).Gives now moved after ∧
      moved.Sound setting.config ∧ setting.Gained (rest.join moved.report.totals) after ∧
      min setting.config.opsPerWorker.toNat (worker.issued + 1) ≤ moved.issued := by
  by_cases hleft : worker.issued < setting.config.opsPerWorker.toNat
  · obtain ⟨index, hindex, hkey⟩ := exists_index_nextAdd h.within
    obtain ⟨after, hadd, hafter⟩ :=
      hgained.gives_add ⟨index, hindex, hkey⟩ (nextAdd setting.config worker.source).1.delta
    refine ⟨_, after, gives_turn_of_add h.outcome_eq hleft hadd, ?_, ?_, Nat.min_le_right _ _⟩
    · refine ⟨rfl, ⟨?_, h.full.failures_eq, h.full.ordered.succeeded _ _⟩, hleft,
        within_nextAdd h.within⟩
      exact congrArg (· + 1) h.full.operations_eq
    · -- the add has gained for the tally what it has gained for the report
      show setting.Gained (rest.join (Report.totals (worker.report.succeeded _ _))) after
      rw [Report.totals_succeeded h.full.ordered, ← Tally.join_assoc]
      exact hafter
  · have hall : setting.config.opsPerWorker.toNat ≤ worker.issued := Nat.not_lt.mp hleft
    exact ⟨worker, now, gives_turn_of_finished h.outcome_eq hall now, h, hgained,
      (Nat.min_le_left _ _).trans hall⟩

theorem Sound.gives_turns (h : worker.Sound setting.config)
    (hgained : setting.Gained (rest.join worker.report.totals) now) (count : Nat) :
    ∃ moved after, (turns setting.counters setting.config count worker).Gives now moved after ∧
      moved.Sound setting.config ∧ setting.Gained (rest.join moved.report.totals) after ∧
      min setting.config.opsPerWorker.toNat (worker.issued + count) ≤ moved.issued := by
  induction count generalizing worker now with
  | zero => exact ⟨worker, now, Call.gives_pure worker now, h, hgained, Nat.min_le_right _ _⟩
  | succ count ih =>
    obtain ⟨middle, between, hturn, hmiddle, hbetween, hissued⟩ := h.gives_turn hgained
    obtain ⟨moved, after, hturns, hmoved, hafter, hall⟩ := ih hmiddle hbetween
    refine ⟨moved, after, hturn.bind hturns, hmoved, hafter, ?_⟩
    omega

/-- A worker that has had turns for all its adds has issued all of them. -/
theorem Sound.full_of_le (h : worker.Sound setting.config)
    (hall : setting.config.opsPerWorker.toNat ≤ worker.issued) :
    worker.report.Full setting.config.opsPerWorker.toNat := by
  have hissued := Nat.le_antisymm h.issued_le hall
  exact hissued ▸ h.full

end Worker

end Workload
end LazyTally
