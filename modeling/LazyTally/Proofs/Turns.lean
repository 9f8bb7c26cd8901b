import Mathlib.Data.List.Basic
import LazyTally.Workload.Run

/-!
# Workers in turns

Workers that run side by side share nothing but the engine, and a merged add is one call on it.
So whatever happens between them is this: a schedule says whose turn it is, and that worker issues
its next add.  When all have finished, their reports are joined in the order of the workers,
whatever the schedule was.

A turn is one round of the loop of a worker, so a worker that has all turns to itself is a worker
that runs alone.

## Main definitions

* `Workload.Worker` — a worker between two of its adds.
* `Workload.Worker.turn`, `Workload.Worker.turns` — one add, and many.
* `Workload.takeTurns`, `Workload.runInterleaved` — turns in the order of a schedule.
* `Workload.Config.Finishes` — a schedule with turns enough for everyone.

## Main results

* `Workload.runWorker_eq_turns` — a worker that runs alone takes all its turns.
-/

namespace LazyTally.Workload

/-- A worker between two of its adds. -/
structure Worker where
  /-- Its place among the workers. -/
  number : Nat
  /-- How many adds it has issued. -/
  issued : Nat
  /-- Where its adds come from. -/
  source : KeySource
  /-- What it has to report so far. -/
  outcome : Except Error Report

variable {σ : Type}

namespace Worker

/-- A worker before its first add. -/
def start (config : Config) (number : Nat) : Worker :=
  ⟨number, 0, keySource config number, .ok Report.empty⟩

/-- The worker after its next add, with what it has to report then. -/
def next (config : Config) (worker : Worker) (outcome : Except Error Report) : Worker :=
  ⟨worker.number, worker.issued + 1, (nextAdd config worker.source).2, outcome⟩

/-- The worker issues its next add, unless it has issued all or has ended with an error. -/
def turn (counters : Counters σ) (config : Config) (worker : Worker) : Call Event σ Worker :=
  match worker.outcome with
  | .error _ => pure worker
  | .ok total =>
      if config.opsPerWorker.toNat ≤ worker.issued then pure worker
      else do
        let add := (nextAdd config worker.source).1
        match ← ((counters.add add.key add.delta).relabel Event.counters).caught with
        | .ok () => pure (worker.next config (.ok (total.succeeded add.key add.delta)))
        | .error failure =>
            if config.stopOnError then
              pure (worker.next config (.error (.operation worker.number worker.issued failure)))
            else
              report (.operationFailed worker.number worker.issued failure)
              pure (worker.next config (.ok total.failed))

/-- The worker takes as many turns, one after the other. -/
def turns (counters : Counters σ) (config : Config) : Nat → Worker → Call Event σ Worker
  | 0, worker => pure worker
  | count + 1, worker => do turns counters config count (← worker.turn counters config)

variable {counters : Counters σ} {config : Config}

/-- A worker that has issued all its adds does nothing with its turns. -/
theorem gives_turn_of_finished {worker : Worker} {total : Report}
    (houtcome : worker.outcome = .ok total) (h : config.opsPerWorker.toNat ≤ worker.issued)
    (state : σ) : (worker.turn counters config).Gives state worker state := by
  rw [turn, houtcome]
  dsimp only
  rw [if_pos h]
  exact Call.gives_pure worker state

/-- An add that succeeds is tallied. -/
theorem gives_turn_of_add {worker : Worker} {total : Report} {state after : σ}
    (houtcome : worker.outcome = .ok total) (h : worker.issued < config.opsPerWorker.toNat)
    (hadd : (counters.add (nextAdd config worker.source).1.key
      (nextAdd config worker.source).1.delta).Gives state () after) :
    (worker.turn counters config).Gives state
      (worker.next config (.ok (total.succeeded (nextAdd config worker.source).1.key
        (nextAdd config worker.source).1.delta))) after := by
  rw [turn, houtcome]
  dsimp only
  rw [if_neg (Nat.not_le.mpr h)]
  exact (hadd.relabel Event.counters).caught.bind (Call.gives_pure _ after)

/-- A worker that has ended with an error takes no more turns. -/
theorem turns_of_error {worker : Worker} {error : Error} (h : worker.outcome = .error error)
    (count : Nat) : turns counters config count worker = pure worker := by
  induction count with
  | zero => rfl
  | succ count ih => rw [turns, turn, h, pure_bind, ih]

end Worker

variable {counters : Counters σ} {config : Config}

/-- The adds that a worker has left are its turns. -/
theorem issueAdds_eq_turns (number : Nat) {remaining issued : Nat}
    (h : issued + remaining = config.opsPerWorker.toNat) (source : KeySource) (total : Report) :
    issueAdds counters.add config number remaining issued source total =
      Worker.outcome <$> Worker.turns counters config remaining
        ⟨number, issued, source, .ok total⟩ := by
  induction remaining generalizing issued source total with
  | zero => rw [issueAdds, Worker.turns, map_pure]
  | succ remaining ih =>
    -- the plan is not through, so the next turn issues one add
    have hleft : ¬config.opsPerWorker.toNat ≤ issued := by omega
    have hnext : issued + 1 + remaining = config.opsPerWorker.toNat := by omega
    rw [issueAdds, Worker.turns, Worker.turn]
    dsimp only
    rw [if_neg hleft, bind_assoc, map_bind]
    congr 1
    funext result
    cases result with
    | ok done =>
      rw [ih hnext, pure_bind]
      rfl
    | error failure =>
      by_cases hstop : config.stopOnError
      · -- the worker ends here, and its other turns do nothing
        simp only [if_pos hstop, pure_bind]
        rw [Worker.turns_of_error rfl, map_pure]
        rfl
      · simp only [if_neg hstop, bind_assoc, map_bind, pure_bind, ih hnext]
        rfl

/-- A worker that runs alone takes all its turns. -/
theorem runWorker_eq_turns (counters : Counters σ) (config : Config) (number : Nat) :
    runWorker counters config number =
      Worker.outcome <$> Worker.turns counters config config.opsPerWorker.toNat
        (Worker.start config number) :=
  issueAdds_eq_turns number (Nat.zero_add _) _ _

/-! ### Schedules -/

/-- The worker at a place takes a turn; where nobody is, nothing happens. -/
def takeTurn (counters : Counters σ) (config : Config) (place : Nat) (workers : List Worker) :
    Call Event σ (List Worker) :=
  match workers[place]? with
  | none => pure workers
  | some worker => do return workers.set place (← worker.turn counters config)

/-- Workers take turns in the order of a schedule, which names their places. -/
def takeTurns (counters : Counters σ) (config : Config) :
    (schedule : List Nat) → List Worker → Call Event σ (List Worker)
  | [], workers => pure workers
  | place :: schedule, workers => do
      takeTurns counters config schedule (← takeTurn counters config place workers)

/-- The workers of a configuration, before their first adds. -/
def startWorkers (config : Config) : List Worker :=
  (List.range config.workers.toNat).map (Worker.start config)

/-- The report of all workers, in their order, or the first error. -/
def joinReports (workers : List Worker) : Except Error Report := do
  return (← workers.mapM Worker.outcome).foldl Report.join Report.empty

/-- Runs a workload whose workers take turns. -/
def runInterleaved (counters : Counters σ) (config : Config) (schedule : List Nat) :
    Call Event σ (Except Error Report) := do
  match refusal? config with
  | some error => pure (.error error)
  | none =>
      report (.started config)
      return joinReports (← takeTurns counters config schedule (startWorkers config))

/-- A schedule in which every worker has turns for all its adds. -/
def Config.Finishes (config : Config) (schedule : List Nat) : Prop :=
  ∀ number < config.workers.toNat, config.opsPerWorker.toNat ≤ schedule.count number

instance (config : Config) (schedule : List Nat) : Decidable (config.Finishes schedule) :=
  inferInstanceAs (Decidable (∀ number < config.workers.toNat,
    config.opsPerWorker.toNat ≤ schedule.count number))

end LazyTally.Workload
