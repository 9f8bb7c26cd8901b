import Mathlib.Logic.Function.Iterate
import LazyTally.Proofs.Balance
import LazyTally.Proofs.FailingRuns

/-!
# Engines that accept every add

On an engine that accepts every add a workload has nothing to find out: each worker reports its
plan, and the joined report is known before the run begins.  It does not depend on the engine, nor
on what the engine holds, nor on whose turn it is when workers take turns.

## Main definitions

* `Counters.Accepts` — from a state on every add succeeds.
* `Workload.Config.report` — the report of a workload whose adds are all accepted.
* `Workload.Worker.accepted` — a worker after a turn in which its add is accepted.

## Main results

* `Layered.OpenUnder.accepts` — an engine that is open accepts every add by merging.
* `Workload.result_run_of_accepts` — workers that run one after the other give the known report.
* `Workload.result_runInterleaved_of_accepts` — and so do workers that take turns.
-/

namespace LazyTally

open Counters (layered)

variable {σ : Type}

/-! ### Accepting -/

namespace Counters

/-- The state after adds, one after the other. -/
def afterAdds (counters : Counters σ) (adds : List (Bytes × UInt64)) (state : σ) : σ :=
  adds.foldl (fun state add => (counters.add add.1 add.2).after state) state

/-- From the state on every add succeeds, whatever is added before it. -/
def Accepts (counters : Counters σ) (state : σ) : Prop :=
  ∀ adds key delta, (counters.add key delta).result (counters.afterAdds adds state) = .ok ()

variable {counters : Counters σ} {state : σ}

theorem Accepts.gives (h : counters.Accepts state) (key : Bytes) (delta : UInt64) :
    (counters.add key delta).Gives state () ((counters.add key delta).after state) :=
  ⟨h [] key delta, rfl⟩

/-- What an add leaves goes on accepting. -/
theorem Accepts.after (h : counters.Accepts state) (key : Bytes) (delta : UInt64) :
    counters.Accepts ((counters.add key delta).after state) :=
  fun adds => h ((key, delta) :: adds)

end Counters

/-- An engine that is open accepts every add by merging. -/
theorem Layered.OpenUnder.accepts {operator : Option OperatorKind} {engine : Layered}
    (h : engine.OpenUnder operator) (default : UInt64) :
    (layered default .merge).Accepts engine := by
  -- an add leaves an engine to which the same applies, so no later add fails
  have hadd : ∀ {now : Layered}, now.OpenUnder operator → ∀ key delta,
      ∃ after, ((layered default .merge).add key delta).Gives now () after ∧
        after.OpenUnder operator := by
    intro now hnow key delta
    obtain ⟨after, hgives, hafter, -⟩ :=
      Counters.gives_write hnow .add (.merge key (Counter.encode delta))
    exact ⟨after, hgives, hafter⟩
  intro adds
  induction adds generalizing engine with
  | nil =>
    intro key delta
    obtain ⟨after, hgives, -⟩ := hadd h key delta
    exact hgives.1
  | cons add adds ih =>
    obtain ⟨after, ⟨-, hsame⟩, hafter⟩ := hadd h add.1 add.2
    rw [← hsame] at hafter
    exact ih hafter

namespace Workload

open Counters (Accepts)

/-! ### The known report -/

/-- An add that is accepted. -/
def Planned.accepted (planned : Planned) : Issued := ⟨planned, .ok ()⟩

namespace Config

variable (config : Config)

/-- What becomes of the adds of a worker if they are accepted. -/
def acceptedLog (worker : Nat) : List Issued := (plan config worker).map Planned.accepted

/-- What a worker reports then. -/
def reportOf (worker : Nat) : Report :=
  (config.acceptedLog worker).foldl Report.take Report.empty

/-- The report of all workers. -/
def report : Report :=
  ((List.range config.workers.toNat).map config.reportOf).foldl Report.join Report.empty

/-- The report tells of the plans of all workers. -/
theorem tells_report :
    config.report.Tells ((List.range config.workers.toNat).flatMap config.acceptedLog) :=
  Report.tells_foldl_join (fun _ => Report.tells_foldl_take _) _

end Config

variable {counters : Counters σ} {config : Config} {state : σ}

/-! ### One worker after the other -/

/-- All adds of a plan are accepted. -/
theorem issued_of_accepts (h : counters.Accepts state) (plan : List Planned) :
    issued counters plan state = plan.map Planned.accepted ∧
      counters.Accepts (afterPlan counters plan state) := by
  induction plan generalizing state with
  | nil => exact ⟨rfl, h⟩
  | cons planned rest ih =>
    obtain ⟨hrest, hafter⟩ := ih (h.after planned.add.key planned.add.delta)
    refine ⟨?_, hafter⟩
    have haccepted : (planned.call counters).result state = .ok () :=
      (h.gives planned.add.key planned.add.delta).1
    rw [issued, haccepted, List.map_cons, ← hrest]
    rfl

theorem accepts_stateBefore (h : counters.Accepts state) (worker : Nat) :
    counters.Accepts (stateBefore counters config state worker) := by
  induction worker with
  | zero => exact h
  | succ worker ih => exact (issued_of_accepts ih _).2

theorem workerLog_of_accepts (h : counters.Accepts state) (worker : Nat) :
    workerLog counters config state worker = config.acceptedLog worker :=
  (issued_of_accepts (accepts_stateBefore h worker) _).1

theorem workerReport_of_accepts (h : counters.Accepts state) (worker : Nat) :
    workerReport counters config state worker = config.reportOf worker := by
  rw [workerReport, workerLog_of_accepts h, Config.reportOf]

/-- Where no add fails, none ends the run. -/
theorem ending_eq_none {log : List Issued} (h : ∀ entry ∈ log, ¬entry.Failed) :
    ending config log = none := by
  unfold ending
  split
  · refine List.find?_eq_none.mpr fun entry hentry => ?_
    rw [decide_eq_true_iff]
    exact h entry hentry
  · rfl

theorem not_failed_of_mem_acceptedLog {worker : Nat} {entry : Issued}
    (h : entry ∈ config.acceptedLog worker) : ¬entry.Failed := by
  obtain ⟨planned, -, rfl⟩ := List.mem_map.mp h
  exact id

/-- A worker whose adds are accepted reports them. -/
theorem result_runWorker_of_accepts (config : Config) (h : counters.Accepts state)
    (worker : Nat) :
    (runWorker counters config worker).result state = .ok (.ok (config.reportOf worker)) := by
  have hgoes := goesThrough_issuePlan counters config (plan config worker) Report.empty state
  rw [(issued_of_accepts h _).1] at hgoes
  have hnone : ending config (config.acceptedLog worker) = none :=
    ending_eq_none fun entry hentry => not_failed_of_mem_acceptedLog hentry
  rw [GoesThrough, ← Config.acceptedLog, hnone] at hgoes
  rw [runWorker_eq_issuePlan]
  exact hgoes.1

/-- Workers that run one after the other give the known report. -/
theorem result_run_of_accepts (h : counters.Accepts state) (hvalid : refusal? config = none) :
    (run counters config).result state = .ok (.ok config.report) := by
  have hgoes := goesThrough_run counters config state hvalid
  have hnone : ending config (runLog counters config state) = none := by
    refine ending_eq_none fun entry hentry => ?_
    obtain ⟨worker, -, hworker⟩ := List.mem_flatMap.mp hentry
    rw [workerLog_of_accepts h] at hworker
    exact not_failed_of_mem_acceptedLog hworker
  have hreports : (List.range config.workers.toNat).map (workerReport counters config state) =
      (List.range config.workers.toNat).map config.reportOf :=
    List.map_congr_left fun worker _ => workerReport_of_accepts h worker
  rw [GoesThrough, hnone, hreports] at hgoes
  exact hgoes.1

/-! ### Workers in turns -/

namespace Worker

/-- The worker after a turn in which its add is accepted, if it has one left. -/
def accepted (config : Config) (worker : Worker) : Worker :=
  match worker.outcome with
  | .error _ => worker
  | .ok total =>
      if config.opsPerWorker.toNat ≤ worker.issued then worker
      else
        worker.next config (.ok (total.succeeded (nextAdd config worker.source).1.key
          (nextAdd config worker.source).1.delta))

theorem exists_gives_turn (config : Config) (h : counters.Accepts state) (worker : Worker) :
    ∃ after, (worker.turn counters config).Gives state (worker.accepted config) after ∧
      counters.Accepts after := by
  unfold accepted
  cases houtcome : worker.outcome with
  | error error =>
    refine ⟨state, ?_, h⟩
    rw [turn, houtcome]
    exact Call.gives_pure worker state
  | ok total =>
    dsimp only
    -- a worker that is through leaves its other turns unused
    by_cases hall : config.opsPerWorker.toNat ≤ worker.issued
    · rw [if_pos hall]
      exact ⟨state, gives_turn_of_finished houtcome hall state, h⟩
    · rw [if_neg hall]
      have hadd := h.gives (nextAdd config worker.source).1.key
        (nextAdd config worker.source).1.delta
      exact ⟨_, gives_turn_of_add houtcome (Nat.not_le.mp hall) hadd, h.after _ _⟩

theorem exists_gives_turns (config : Config) (h : counters.Accepts state) (count : Nat)
    (worker : Worker) :
    ∃ after, (turns counters config count worker).Gives state
      ((accepted config)^[count] worker) after := by
  induction count generalizing worker state with
  | zero => exact ⟨state, Call.gives_pure worker state⟩
  | succ count ih =>
    obtain ⟨middle, hturn, hmiddle⟩ := exists_gives_turn config h worker
    obtain ⟨after, hturns⟩ := ih hmiddle (worker.accepted config)
    exact ⟨after, hturn.bind hturns⟩

/-- In each of its turns a worker without an error issues an add, as long as there is one left. -/
theorem issued_accepted (config : Config) {worker : Worker} {total : Report}
    (h : worker.outcome = .ok total) :
    (∃ total, (worker.accepted config).outcome = .ok total) ∧
      min config.opsPerWorker.toNat (worker.issued + 1) ≤ (worker.accepted config).issued := by
  unfold accepted
  rw [h]
  dsimp only
  split
  · next hall => exact ⟨⟨total, h⟩, (Nat.min_le_left _ _).trans hall⟩
  · exact ⟨⟨_, rfl⟩, Nat.min_le_right _ _⟩

theorem issued_iterate_accepted (config : Config) (number count : Nat) :
    (∃ total, ((accepted config)^[count] (start config number)).outcome = .ok total) ∧
      min config.opsPerWorker.toNat count ≤
        ((accepted config)^[count] (start config number)).issued := by
  induction count with
  | zero => exact ⟨⟨Report.empty, rfl⟩, Nat.min_le_right _ _⟩
  | succ count ih =>
    obtain ⟨⟨total, htotal⟩, hissued⟩ := ih
    obtain ⟨hgoes, hnext⟩ := issued_accepted config htotal
    rw [Function.iterate_succ_apply']
    exact ⟨hgoes, by omega⟩

/-- A worker that has issued all its adds stays as it is. -/
theorem accepted_of_finished {worker : Worker} {total : Report} (h : worker.outcome = .ok total)
    (hall : config.opsPerWorker.toNat ≤ worker.issued) : worker.accepted config = worker := by
  unfold accepted
  rw [h]
  exact if_pos hall

theorem report_eq {worker : Worker} {total : Report} (h : worker.outcome = .ok total) :
    worker.report = total := by
  rw [report, h]

/-- A worker that has had turns for all its adds has them to report. -/
theorem outcome_iterate_accepted (h : counters.Accepts state) (number : Nat) {count : Nat}
    (hcount : config.opsPerWorker.toNat ≤ count) :
    ((accepted config)^[count] (start config number)).outcome = .ok (config.reportOf number) := by
  obtain ⟨⟨total, htotal⟩, hissued⟩ :=
    issued_iterate_accepted config number config.opsPerWorker.toNat
  rw [Nat.min_self] at hissued
  have hfixed := accepted_of_finished htotal hissued
  -- the turns beyond the last add change nothing
  obtain ⟨more, rfl⟩ := Nat.exists_eq_add_of_le' hcount
  rw [Function.iterate_add_apply, Function.iterate_fixed hfixed]
  obtain ⟨after, hturns⟩ := exists_gives_turns config h config.opsPerWorker.toNat
    (start config number)
  have hreported := result_runWorker_of_accepts config h number
  rw [runWorker_eq_turns, map_eq_pure_bind, hturns.result_bind] at hreported
  exact Except.ok.inj hreported

end Worker

theorem exists_gives_takeTurn (config : Config) (h : counters.Accepts state) (place : Nat)
    (workers : List Worker) :
    ∃ after, (takeTurn counters config place workers).Gives state
        (workers.modify place (Worker.accepted config)) after ∧ counters.Accepts after := by
  unfold takeTurn
  cases hplace : workers[place]? with
  | none =>
    rw [List.modify_eq_self (List.getElem?_eq_none_iff.mp hplace)]
    exact ⟨state, Call.gives_pure workers state, h⟩
  | some worker =>
    obtain ⟨after, hturn, hafter⟩ := Worker.exists_gives_turn config h worker
    rw [List.modify_eq_set_getElem?, hplace]
    exact ⟨after, hturn.bind (Call.gives_pure _ after), hafter⟩

/-- In whatever order they take turns, each worker has its own. -/
theorem exists_gives_takeTurns (config : Config) (h : counters.Accepts state)
    (schedule : List Nat) (workers : List Worker) :
    ∃ moved after, (takeTurns counters config schedule workers).Gives state moved after ∧
      ∀ place : Nat, moved[place]? =
        workers[place]?.map (Worker.accepted config)^[schedule.count place] := by
  induction schedule generalizing workers state with
  | nil =>
    refine ⟨workers, state, Call.gives_pure workers state, fun place => ?_⟩
    rw [List.count_nil, Function.iterate_zero, Option.map_id, id]
  | cons first schedule ih =>
    obtain ⟨middle, hturn, hmiddle⟩ := exists_gives_takeTurn config h first workers
    obtain ⟨moved, after, hturns, hmoved⟩ := ih hmiddle _
    refine ⟨moved, after, hturn.bind hturns, ?_⟩
    intro place
    rw [hmoved place, List.getElem?_modify, List.count_cons]
    -- the turn of this worker, or of another
    by_cases hfirst : first = place
    · simp [hfirst, Function.comp_def]
    · simp [hfirst]

/-- Workers that take turns in any order give the known report once all have finished. -/
theorem result_runInterleaved_of_accepts (h : counters.Accepts state)
    (hvalid : refusal? config = none) {schedule : List Nat} (hfinishes : config.Finishes schedule) :
    (runInterleaved counters config schedule).result state = .ok (.ok config.report) := by
  obtain ⟨moved, after, hturns, hmoved⟩ :=
    exists_gives_takeTurns config h schedule (startWorkers config)
  -- each worker has made as many accepted adds as the schedule gave it turns
  have hall : moved = (List.range config.workers.toNat).map fun number =>
      (Worker.accepted config)^[schedule.count number] (Worker.start config number) := by
    apply List.ext_getElem?
    intro place
    rw [hmoved place, startWorkers, List.getElem?_map, List.getElem?_map, Option.map_map]
    by_cases hplace : place < config.workers.toNat
    · rw [List.getElem?_range hplace]
      rfl
    · rw [List.getElem?_eq_none (by simpa using hplace)]
      rfl
  -- which are enough for its whole plan
  have houtcomes : ∀ number ∈ List.range config.workers.toNat,
      ((Worker.accepted config)^[schedule.count number] (Worker.start config number)).outcome =
        .ok (config.reportOf number) := fun number hnumber =>
    Worker.outcome_iterate_accepted h number (hfinishes number (List.mem_range.mp hnumber))
  have hreports : moved.map Worker.report =
      (List.range config.workers.toNat).map config.reportOf := by
    rw [hall, List.map_map]
    exact List.map_congr_left fun number hnumber => Worker.report_eq (houtcomes number hnumber)
  have hjoined : joinReports moved = .ok config.report := by
    rw [joinReports_eq, hreports, Config.report]
    intro worker hworker
    rw [hall] at hworker
    obtain ⟨number, hnumber, rfl⟩ := List.mem_map.mp hworker
    rw [Worker.report_eq (houtcomes number hnumber), houtcomes number hnumber]
  have hresult : (takeTurns counters config schedule (startWorkers config) >>= fun workers =>
      (pure (joinReports workers) : Call Event σ (Except Error Report))).Gives state
        (.ok config.report) after := by
    rw [← hjoined]
    exact hturns.bind (Call.gives_pure _ after)
  rw [runInterleaved, hvalid]
  exact ((Call.gives_report _ state).bind hresult).1

end Workload
end LazyTally
