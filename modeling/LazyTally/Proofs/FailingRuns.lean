import LazyTally.Engine.Refusing
import LazyTally.Proofs.Canonical
import LazyTally.Proofs.Sharing
import LazyTally.Proofs.Totals
import LazyTally.Workload.Run

/-!
# Workloads whose adds fail

A worker draws its adds from its own source, and the source moves on whether an add succeeds or
not.  So what a worker issues is planned by the configuration alone, and an engine can only decide
what becomes of the plan.  What became of it is kept in a log, and all that a run gives can be read
off the log: the report if the run goes through, and the first add that failed if failures end it.

## Main definitions

* `Workload.Planned`, `Workload.plan` — an add with its place, and the adds of a worker.
* `Workload.issuePlan` — issues the adds of a list as a worker does.
* `Workload.Issued`, `Workload.issued` — an add with what became of it, and the log of a plan.
* `Workload.runLog`, `Workload.workerReport` — the log of all workers, and what one of them reports.
* `Workload.Report.Tells` — the report says of a log what there is to say.

## Main results

* `Workload.runWorker_eq_issuePlan` — a worker issues its plan, whatever fails.
* `Workload.Report.tells_foldl_take`, `Workload.Report.Tells.join` — reports tell of the logs.
* `Workload.Report.foldl_join_perm` — it does not matter in which order reports are joined.
* `Workload.goesThrough_run` — a run goes through unless a failed add ends it.
* `Workload.run_told_by_log` — the report, and the error, of a run on any engine.
-/

namespace LazyTally.Workload

variable {σ : Type}

/-! ### What a worker issues -/

/-- An add that is to be issued, with its place. -/
structure Planned where
  /-- The place of its worker. -/
  worker : Nat
  /-- How many adds the worker issues before. -/
  index : Nat
  /-- The add. -/
  add : Add
  deriving DecidableEq, Repr

/-- The remaining adds of a worker, of which `index` come before. -/
def planFrom (config : Config) (worker : Nat) :
    (remaining : Nat) → (index : Nat) → KeySource → List Planned
  | 0, _, _ => []
  | remaining + 1, index, source =>
      let (add, source) := nextAdd config source
      ⟨worker, index, add⟩ :: planFrom config worker remaining (index + 1) source

/-- The adds of a worker, in order.  Nothing that happens to an engine has a part in them. -/
def plan (config : Config) (worker : Nat) : List Planned :=
  planFrom config worker config.opsPerWorker.toNat 0 (keySource config worker)

theorem length_planFrom (config : Config) (worker remaining index : Nat) (source : KeySource) :
    (planFrom config worker remaining index source).length = remaining := by
  induction remaining generalizing index source with
  | zero => rfl
  | succ remaining ih => rw [planFrom, List.length_cons, ih]

/-- The add as a call. -/
def Planned.call (counters : Counters σ) (planned : Planned) : Call Counters.Event σ Unit :=
  counters.add planned.add.key planned.add.delta

/-- Issues the adds of a list, one after the other. -/
def issuePlan (counters : Counters σ) (config : Config) :
    List Planned → Report → Call Event σ (Except Error Report)
  | [], total => pure (.ok total)
  | planned :: rest, total => do
      match ← ((planned.call counters).relabel Event.counters).caught with
      | .ok () =>
          issuePlan counters config rest (total.succeeded planned.add.key planned.add.delta)
      | .error failure =>
          if config.stopOnError then
            pure (.error (.operation planned.worker planned.index failure))
          else
            report (.operationFailed planned.worker planned.index failure)
            issuePlan counters config rest total.failed

theorem issueAdds_eq_issuePlan (counters : Counters σ) (config : Config)
    (worker remaining index : Nat) (source : KeySource) (total : Report) :
    issueAdds counters.add config worker remaining index source total =
      issuePlan counters config (planFrom config worker remaining index source) total := by
  induction remaining generalizing index source total with
  | zero => rfl
  | succ remaining ih =>
    rw [issueAdds, planFrom, issuePlan]
    simp only [ih]
    rfl

/-- A worker issues its plan, whatever fails. -/
theorem runWorker_eq_issuePlan (counters : Counters σ) (config : Config) (worker : Nat) :
    runWorker counters config worker =
      issuePlan counters config (plan config worker) Report.empty :=
  issueAdds_eq_issuePlan counters config worker _ 0 _ _

/-! ### What becomes of it -/

/-- An add that was issued, with what became of it. -/
structure Issued extends Planned where
  /-- It succeeded or failed. -/
  result : Except Failure Unit

/-- The add failed. -/
def Issued.Failed (entry : Issued) : Prop :=
  match entry.result with
  | .ok () => False
  | .error _ => True

instance : DecidablePred Issued.Failed
  | ⟨_, .ok ()⟩ => isFalse id
  | ⟨_, .error _⟩ => isTrue trivial

/-- What becomes of the adds of a list if all of them are issued. -/
def issued (counters : Counters σ) : List Planned → σ → List Issued
  | [], _ => []
  | planned :: rest, state =>
      ⟨planned, (planned.call counters).result state⟩ ::
        issued counters rest ((planned.call counters).after state)

/-- What they leave. -/
def afterPlan (counters : Counters σ) (plan : List Planned) (state : σ) : σ :=
  plan.foldl (fun state planned => (planned.call counters).after state) state

theorem length_issued (counters : Counters σ) (plan : List Planned) (state : σ) :
    (issued counters plan state).length = plan.length := by
  induction plan generalizing state with
  | nil => rfl
  | cons planned rest ih => rw [issued, List.length_cons, List.length_cons, ih]

/-- The report with one add more. -/
def Report.take (total : Report) (entry : Issued) : Report :=
  match entry.result with
  | .ok () => total.succeeded entry.add.key entry.add.delta
  | .error _ => total.failed

/-- The add of a log that ends a run, if one does. -/
def ending (config : Config) (log : List Issued) : Option Issued :=
  if config.stopOnError then log.find? (·.Failed) else none

theorem ending_append (config : Config) (log later : List Issued) :
    ending config (log ++ later) = (ending config log).or (ending config later) := by
  unfold ending
  split
  · exact List.find?_append
  · rfl

theorem ending_nil (config : Config) : ending config [] = none := by
  unfold ending
  split <;> rfl

theorem ending_singleton (config : Config) (entry : Issued) :
    ending config [entry] = if config.stopOnError ∧ entry.Failed then some entry else none := by
  unfold ending
  by_cases hstop : config.stopOnError
  · by_cases hfailed : entry.Failed
    · simp [hstop, hfailed]
    · simp [hstop, hfailed]
  · simp [hstop]

/-- The call gives a report and leaves a state, unless an add of the log ends it: then it gives the
error with the place of that add. -/
def GoesThrough (config : Config) (call : Call Event σ (Except Error Report)) (state : σ)
    (log : List Issued) (report : Report) (after : σ) : Prop :=
  match ending config log with
  | none => call.Gives state (.ok report) after
  | some last => ∃ cause reached, last.result = .error cause ∧
      call.Gives state (.error (.operation last.worker last.index cause)) reached

theorem GoesThrough.bind {α : Type} {config : Config} {first : Call Event σ α}
    {next : α → Call Event σ (Except Error Report)} {a : α} {state middle after : σ}
    {log : List Issued} {report : Report}
    (h : first.Gives state a middle) (hnext : GoesThrough config (next a) middle log report after) :
    GoesThrough config (first >>= next) state log report after := by
  unfold GoesThrough at hnext ⊢
  cases hending : ending config log with
  | none =>
    rw [hending] at hnext
    exact h.bind hnext
  | some last =>
    rw [hending] at hnext
    obtain ⟨cause, reached, hcause, hgives⟩ := hnext
    exact ⟨cause, reached, hcause, h.bind hgives⟩

/-- Adds that do not end the run can be left out of the log. -/
theorem GoesThrough.append_left {config : Config} {call : Call Event σ (Except Error Report)}
    {state after : σ} {earlier log : List Issued} {report : Report}
    (h : GoesThrough config call state log report after) (hearlier : ending config earlier = none) :
    GoesThrough config call state (earlier ++ log) report after := by
  rw [GoesThrough, ending_append, hearlier, Option.none_or]
  exact h

/-- A plan goes through with a report of its log. -/
theorem goesThrough_issuePlan (counters : Counters σ) (config : Config) (plan : List Planned)
    (total : Report) (state : σ) :
    GoesThrough config (issuePlan counters config plan total) state (issued counters plan state)
      ((issued counters plan state).foldl Report.take total) (afterPlan counters plan state) := by
  induction plan generalizing total state with
  | nil =>
    rw [GoesThrough, issued, ending_nil]
    exact Call.gives_pure _ state
  | cons planned rest ih =>
    have hcaught := Call.gives_caught ((planned.call counters).relabel Event.counters) state
    have hsame : ((planned.call counters).relabel Event.counters).result state =
        (planned.call counters).result state := rfl
    rw [hsame] at hcaught
    rw [issued]
    cases hresult : (planned.call counters).result state with
    | ok done =>
      -- the plan goes on, and with it its log
      rw [hresult] at hcaught
      have hrest := ih (total.succeeded planned.add.key planned.add.delta)
        ((planned.call counters).after state)
      have hstays : ending config [⟨planned, .ok done⟩] = none := by
        rw [ending_singleton, if_neg fun hfailed => hfailed.2]
      exact GoesThrough.append_left (GoesThrough.bind hcaught hrest) hstays
    | error failure =>
      -- a failure ends the plan here, or it is counted and the plan goes on
      rw [hresult] at hcaught
      by_cases hstop : config.stopOnError
      · have hends : ending config (⟨planned, .error failure⟩ ::
            issued counters rest ((planned.call counters).after state)) =
              some ⟨planned, .error failure⟩ := by
          rw [← List.singleton_append, ending_append, ending_singleton, if_pos ⟨hstop, trivial⟩,
            Option.some_or]
        rw [GoesThrough, hends]
        refine ⟨failure, (planned.call counters).after state, rfl, hcaught.bind ?_⟩
        dsimp only
        rw [if_pos hstop]
        exact Call.gives_pure _ _
      · have hrest := ih total.failed ((planned.call counters).after state)
        have hstays : ending config [⟨planned, .error failure⟩] = none := if_neg hstop
        refine GoesThrough.append_left (GoesThrough.bind hcaught ?_) hstays
        dsimp only
        rw [if_neg hstop]
        exact GoesThrough.bind (Call.gives_report _ _) hrest

/-! ### All workers -/

section

variable (counters : Counters σ) (config : Config) (state : σ)

/-- The state that a worker finds if those before it have issued all their adds. -/
def stateBefore : (worker : Nat) → σ
  | 0 => state
  | worker + 1 => afterPlan counters (plan config worker) (stateBefore worker)

/-- What becomes of the adds of a worker. -/
def workerLog (worker : Nat) : List Issued :=
  issued counters (plan config worker) (stateBefore counters config state worker)

/-- What becomes of the adds of all workers, in the order of the workers. -/
def runLog : List Issued :=
  (List.range config.workers.toNat).flatMap (workerLog counters config state)

/-- What a worker reports of its adds. -/
def workerReport (worker : Nat) : Report :=
  (workerLog counters config state worker).foldl Report.take Report.empty

theorem length_runLog :
    (runLog counters config state).length =
      config.workers.toNat * config.opsPerWorker.toNat := by
  have heach : ∀ worker, (workerLog counters config state worker).length =
      config.opsPerWorker.toNat := by
    intro worker
    rw [workerLog, length_issued, plan, length_planFrom]
  simp [runLog, List.length_flatMap, heach]

theorem goesThrough_runWorker (worker : Nat) :
    GoesThrough config (runWorker counters config worker)
      (stateBefore counters config state worker) (workerLog counters config state worker)
      (workerReport counters config state worker)
      (stateBefore counters config state (worker + 1)) := by
  rw [runWorker_eq_issuePlan]
  exact goesThrough_issuePlan counters config _ _ _

/-- Workers go through one after the other, and their reports are joined. -/
theorem goesThrough_runWorkers (remaining worker : Nat) (total : Report) :
    GoesThrough config (runWorkers counters.add config remaining worker total)
      (stateBefore counters config state worker)
      ((List.range' worker remaining).flatMap (workerLog counters config state))
      (((List.range' worker remaining).map (workerReport counters config state)).foldl
        Report.join total)
      (stateBefore counters config state (worker + remaining)) := by
  induction remaining generalizing worker total with
  | zero =>
    rw [GoesThrough, List.range'_zero, List.flatMap_nil, ending_nil]
    exact Call.gives_pure _ _
  | succ remaining ih =>
    have hworker := goesThrough_runWorker counters config state worker
    have hrest := ih (worker + 1) (total.join (workerReport counters config state worker))
    have hplace : worker + 1 + remaining = worker + (remaining + 1) := by omega
    rw [List.range'_succ, List.flatMap_cons, List.map_cons, List.foldl_cons, ← hplace, runWorkers]
    unfold GoesThrough at hworker
    cases hending : ending config (workerLog counters config state worker) with
    | none =>
      -- the worker went through its plan, so the run goes on with the next one
      rw [hending] at hworker
      refine GoesThrough.append_left ?_ hending
      exact GoesThrough.bind hworker hrest
    | some last =>
      -- the worker ended the run, and no other worker begins
      rw [hending] at hworker
      obtain ⟨cause, reached, hcause, hgives⟩ := hworker
      rw [GoesThrough, ending_append, hending, Option.some_or]
      exact ⟨cause, reached, hcause, hgives.bind (Call.gives_pure _ reached)⟩

/-- A run goes through with the joined reports of all workers, unless a failed add ends it. -/
theorem goesThrough_run (hvalid : refusal? config = none) :
    GoesThrough config (run counters config) state (runLog counters config state)
      (((List.range config.workers.toNat).map (workerReport counters config state)).foldl
        Report.join Report.empty)
      (stateBefore counters config state config.workers.toNat) := by
  have hworkers := goesThrough_runWorkers counters config state config.workers.toNat 0 Report.empty
  rw [← List.range_eq_range', Nat.zero_add] at hworkers
  rw [run, runWith, hvalid]
  exact GoesThrough.bind (Call.gives_report _ state) hworkers

end

/-! ### What a report tells -/

/-- The adds of a log that succeeded, in order. -/
def successes (log : List Issued) : List (Bytes × UInt64) :=
  log.filterMap fun entry =>
    match entry.result with
    | .ok () => some (entry.add.key, entry.add.delta)
    | .error _ => none

theorem successes_append (log later : List Issued) :
    successes (log ++ later) = successes log ++ successes later := List.filterMap_append

/-- The sum of numbers, if there are any. -/
def sum? (numbers : List UInt64) : Option UInt64 :=
  if numbers = [] then none else some numbers.sum

theorem sum?_append (numbers others : List UInt64) :
    sum? (numbers ++ others) = Option.merge (· + ·) (sum? numbers) (sum? others) := by
  unfold sum?
  by_cases hnumbers : numbers = []
  · rw [hnumbers, List.nil_append, if_pos rfl, Option.merge_none_left]
  · rw [if_neg (List.append_ne_nil_of_left_ne_nil hnumbers others), if_neg hnumbers]
    by_cases hothers : others = []
    · rw [hothers, List.append_nil, if_pos rfl, Option.merge_none_right]
    · rw [if_neg hothers, Option.merge_some_some, List.sum_append]

/-- The totals of a log: a key with adds that succeeded has the sum of their addends. -/
def totalsOfLog (log : List Issued) : Tally := fun key => sum? (addends (successes log) key)

theorem totalsOfLog_append (log later : List Issued) :
    totalsOfLog (log ++ later) = (totalsOfLog log).join (totalsOfLog later) := by
  funext key
  rw [totalsOfLog, successes_append, addends_append, sum?_append]
  rfl

/-- A single add that succeeded brings its addend. -/
theorem totalsOfLog_success (planned : Planned) (done : Unit) :
    totalsOfLog [⟨planned, .ok done⟩] = Tally.single planned.add.key planned.add.delta := by
  funext key
  show sum? (addends ((planned.add.key, planned.add.delta) :: []) key) = _
  rw [addends_cons, Tally.single]
  by_cases hkey : planned.add.key = key
  · rw [if_pos hkey, if_pos hkey]
    exact congrArg some (UInt64.add_zero planned.add.delta)
  · rw [if_neg hkey, if_neg hkey]
    rfl

namespace Report

/-- The report says of a log what there is to say. -/
structure Tells (report : Report) (log : List Issued) : Prop where
  /-- So many adds were issued. -/
  operations_eq : report.operations = log.length
  /-- So many of them failed. -/
  failures_eq : report.failures = log.countP (·.Failed)
  /-- The keys are in order. -/
  ordered : report.Ordered
  /-- The keys are those of adds that succeeded, each with the sum of their addends. -/
  totals_eq : report.totals = totalsOfLog log

variable {report other third : Report} {log later : List Issued}

theorem tells_empty : empty.Tells [] := ⟨rfl, rfl, ordered_empty, rfl⟩

theorem Tells.take (h : report.Tells log) (entry : Issued) :
    (report.take entry).Tells (log ++ [entry]) := by
  have hlength : (log ++ [entry]).length = log.length + 1 := List.length_append
  obtain ⟨planned, _ | done⟩ := entry
  · refine ⟨?_, ?_, h.ordered, ?_⟩
    · rw [hlength, ← h.operations_eq]
      rfl
    · rw [List.countP_append, ← h.failures_eq]
      rfl
    · rw [totalsOfLog_append, ← h.totals_eq]
      exact (Tally.join_nothing report.totals).symm
  · refine ⟨?_, ?_, h.ordered.succeeded _ _, ?_⟩
    · rw [hlength, ← h.operations_eq]
      rfl
    · rw [List.countP_append, ← h.failures_eq]
      rfl
    · rw [totalsOfLog_append, ← h.totals_eq, totalsOfLog_success]
      exact totals_succeeded h.ordered _ _

theorem Tells.join (h : report.Tells log) (hother : other.Tells later) :
    (report.join other).Tells (log ++ later) := by
  refine ⟨?_, ?_, h.ordered.join other, ?_⟩
  · rw [List.length_append, ← h.operations_eq, ← hother.operations_eq]
    rfl
  · rw [List.countP_append, ← h.failures_eq, ← hother.failures_eq]
    rfl
  · rw [totals_join h.ordered hother.ordered, totalsOfLog_append, h.totals_eq, hother.totals_eq]

/-- The report of a log tells of it. -/
theorem tells_foldl_take (log : List Issued) : (log.foldl take empty).Tells log := by
  induction log using List.reverseRecOn with
  | nil => exact tells_empty
  | append_singleton log entry ih =>
    rw [List.foldl_append]
    exact ih.take entry

/-- Reports that are joined one after the other tell of all their logs. -/
theorem tells_foldl_join {α : Type} {reports : α → Report} {logs : α → List Issued}
    (h : ∀ a, (reports a).Tells (logs a)) (items : List α) :
    ((items.map reports).foldl Report.join empty).Tells (items.flatMap logs) := by
  induction items using List.reverseRecOn with
  | nil => exact tells_empty
  | append_singleton items item ih =>
    rw [List.map_append, List.foldl_append, List.flatMap_append, List.flatMap_singleton]
    exact ih.join (h item)

/-- Nothing but its counts and its totals is in a report whose keys are in order. -/
theorem Ordered.ext (h : report.Ordered) (hother : other.Ordered)
    (hoperations : report.operations = other.operations)
    (hfailures : report.failures = other.failures) (htotals : report.totals = other.totals) :
    report = other := by
  have hexpected : report.expected = other.expected := by
    apply KeyMap.Ascending.eq_of_mem_iff h hother
    rintro ⟨key, total⟩
    rw [← KeyMap.find?_eq_some_iff h, ← KeyMap.find?_eq_some_iff hother]
    exact Eq.congr_left (congrFun htotals key)
  obtain ⟨operations, failures, expected⟩ := report
  obtain rfl : operations = other.operations := hoperations
  obtain rfl : failures = other.failures := hfailures
  obtain rfl : expected = other.expected := hexpected
  rfl

/-- Two reports can be joined in either order to a third. -/
theorem join_right_comm (h : report.Ordered) (hother : other.Ordered) (hthird : third.Ordered) :
    (report.join other).join third = (report.join third).join other := by
  apply Ordered.ext ((h.join other).join third) ((h.join third).join other)
  · exact Nat.add_right_comm _ _ _
  · exact Nat.add_right_comm _ _ _
  · rw [totals_join (h.join other) hthird, totals_join h hother,
      totals_join (h.join third) hother, totals_join h hthird, Tally.join_assoc,
      Tally.join_comm other.totals, ← Tally.join_assoc]

/-- It does not matter in which order reports are joined. -/
theorem foldl_join_perm {reports others : List Report} (hperm : reports.Perm others)
    (hreports : ∀ other ∈ reports, other.Ordered) (h : report.Ordered) :
    reports.foldl Report.join report = others.foldl Report.join report := by
  induction hperm generalizing report with
  | nil => rfl
  | cons first hrest ih =>
    exact ih (fun other hmem => hreports other (List.mem_cons_of_mem _ hmem)) (h.join first)
  | swap first second rest =>
    obtain ⟨hsecond, hothers⟩ := List.forall_mem_cons.mp hreports
    obtain ⟨hfirst, -⟩ := List.forall_mem_cons.mp hothers
    rw [List.foldl_cons, List.foldl_cons, List.foldl_cons, List.foldl_cons,
      join_right_comm h hsecond hfirst]
  | trans hleft hright ihleft ihright =>
    rw [ihleft hreports h]
    exact ihright (fun other hmem => hreports other (hleft.mem_iff.mpr hmem)) h

end Report

/-! ### Runs on any engine -/

section

variable (counters : Counters σ) {config : Config} (state : σ)

/-- If failures do not end it, a worker reports its log. -/
theorem gives_runWorker (hgoes : config.stopOnError = false) (worker : Nat) :
    (runWorker counters config worker).Gives (stateBefore counters config state worker)
      (.ok (workerReport counters config state worker))
      (stateBefore counters config state (worker + 1)) := by
  have hworker := goesThrough_runWorker counters config state worker
  rw [GoesThrough, ending, hgoes] at hworker
  exact hworker

/-- Whatever the order in which reports are joined, they are those of the run. -/
theorem tells_foldl_join_of_perm {reports : List Report}
    (hperm : reports.Perm
      ((List.range config.workers.toNat).map (workerReport counters config state))) :
    reports.foldl Report.join Report.empty =
        ((List.range config.workers.toNat).map (workerReport counters config state)).foldl
          Report.join Report.empty ∧
      (reports.foldl Report.join Report.empty).Tells (runLog counters config state) := by
  -- each report tells its own log, whatever the other workers did
  have htells : ∀ worker, (workerReport counters config state worker).Tells
      (workerLog counters config state worker) := fun worker => Report.tells_foldl_take _
  have hordered : ∀ report ∈ reports, report.Ordered := by
    intro report hmem
    obtain ⟨worker, -, rfl⟩ := List.mem_map.mp (hperm.mem_iff.mp hmem)
    exact (htells worker).ordered
  have hsame := Report.foldl_join_perm hperm hordered Report.ordered_empty
  refine ⟨hsame, ?_⟩
  rw [hsame]
  exact Report.tells_foldl_join htells _

/-- On any engine, and whichever of its calls fail, a run of a valid configuration is told by the
plans of its workers and by what becomes of them.  Each worker issues its plan.  If failures do not
end the run, it gives the reports of the workers joined in any order: as many operations as there
are adds in all plans, the failures among them, and for each key with adds that succeeded the sum of
their addends.  If failures end it, it gives an error exactly if an add fails, with the worker and
the place of the first that does. -/
theorem run_told_by_log (hvalid : refusal? config = none) :
    (∀ worker, runWorker counters config worker =
      issuePlan counters config (plan config worker) Report.empty) ∧
    (config.stopOnError = false →
      (∀ worker, (runWorker counters config worker).Gives
        (stateBefore counters config state worker)
        (.ok (workerReport counters config state worker))
        (stateBefore counters config state (worker + 1))) ∧
      ∀ reports : List Report,
        reports.Perm
            ((List.range config.workers.toNat).map (workerReport counters config state)) →
          ∃ total, total = reports.foldl Report.join Report.empty ∧
            (run counters config).Gives state (.ok total)
              (stateBefore counters config state config.workers.toNat) ∧
            total.operations = config.workers.toNat * config.opsPerWorker.toNat ∧
            total.failures = (runLog counters config state).countP (·.Failed) ∧
            KeyMap.Ascending total.expected ∧
            ∀ key, total.expected.find? key =
              if addends (successes (runLog counters config state)) key = [] then none
              else some (addends (successes (runLog counters config state)) key).sum) ∧
    (config.stopOnError = true →
      ((∃ error, (run counters config).result state = .ok (.error error)) ↔
        ∃ entry ∈ runLog counters config state, entry.Failed) ∧
      ((∀ entry ∈ runLog counters config state, ¬entry.Failed) →
        (run counters config).Gives state
          (.ok (((List.range config.workers.toNat).map
            (workerReport counters config state)).foldl Report.join Report.empty))
          (stateBefore counters config state config.workers.toNat)) ∧
      ∀ error, (run counters config).result state = .ok (.error error) →
        ∃ first cause,
          (runLog counters config state).find? (·.Failed) = some first ∧
          first.result = .error cause ∧
          error = .operation first.worker first.index cause) := by
  have hrun := goesThrough_run counters config state hvalid
  refine ⟨runWorker_eq_issuePlan counters config, ?_, ?_⟩
  · intro hgoes
    -- without an early end every add of every plan is in the log
    refine ⟨gives_runWorker counters state hgoes, ?_⟩
    intro reports hperm
    obtain ⟨hsame, htells⟩ := tells_foldl_join_of_perm counters state hperm
    rw [GoesThrough, ending, hgoes, ← hsame] at hrun
    refine ⟨_, rfl, hrun, ?_, htells.failures_eq, htells.ordered, ?_⟩
    · rw [htells.operations_eq, length_runLog]
    · exact congrFun htells.totals_eq
  · intro hstops
    -- with an early end it is the first failure of the log that decides
    rw [GoesThrough, ending, if_pos hstops] at hrun
    cases hfirst : (runLog counters config state).find? (·.Failed) with
    | none =>
      rw [hfirst] at hrun
      have hnone : ¬∃ error, (run counters config).result state = .ok (.error error) := by
        rintro ⟨error, herror⟩
        cases herror.symm.trans hrun.1
      have hall : ¬∃ entry ∈ runLog counters config state, entry.Failed := by
        rintro ⟨entry, hmem, hfailed⟩
        have hnot := List.find?_eq_none.mp hfirst entry hmem
        exact absurd (decide_eq_true hfailed) hnot
      exact ⟨⟨fun herror => absurd herror hnone, fun hsome => absurd hsome hall⟩, fun _ => hrun,
        fun error herror => absurd ⟨error, herror⟩ hnone⟩
    | some first =>
      rw [hfirst] at hrun
      obtain ⟨cause, reached, hcause, hresult, -⟩ := hrun
      have hfailed := List.find?_some hfirst
      have hmem := List.mem_of_find?_eq_some hfirst
      have hsome : ∃ entry ∈ runLog counters config state, entry.Failed :=
        ⟨first, hmem, of_decide_eq_true hfailed⟩
      refine ⟨⟨fun _ => hsome, fun _ => ⟨_, hresult⟩⟩, ?_, ?_⟩
      · intro hall
        exact absurd (of_decide_eq_true hfailed) (hall first hmem)
      · intro error herror
        refine ⟨first, cause, rfl, hcause, ?_⟩
        exact Except.error.inj (Except.ok.inj (herror.symm.trans hresult))

end

/-- Two workers add to two counters in turn, and the engine refuses to merge into the second.  Of
the four adds two fail; if failures end the run, it ends with the second add of the first worker. -/
theorem run_told_by_log_refused :
    let counters : Counters Layered :=
      ⟨Layered.engine.refusing ⟨[.merge], [storageKey 1]⟩, 0, .merge⟩
    let engine := Layered.opened [] none ⟨some .associative, 2, true⟩
    let patient : Config := ⟨2, 2, 2, .sequential, 7, 1, false⟩
    let strict : Config := ⟨2, 2, 2, .sequential, 7, 1, true⟩
    refusal? patient = none ∧ refusal? strict = none ∧
      (∃ report after, (run counters patient).Gives engine (.ok report) after ∧
        report.operations = 4 ∧ report.failures = 2 ∧
        report.expected.find? (storageKey 0) = some 2 ∧
        report.expected.find? (storageKey 1) = none) ∧
      (run counters strict).result engine =
        .ok (.error (.operation 0 1 (.engineWrite "disk full"))) := by
  intro counters engine patient strict
  have hpatient : refusal? patient = none := by decide
  have hstrict : refusal? strict = none := by decide
  obtain ⟨-, hgoes, -⟩ := run_told_by_log counters engine hpatient
  obtain ⟨-, -, hstops⟩ := run_told_by_log counters engine hstrict
  obtain ⟨-, hreports⟩ := hgoes rfl
  obtain ⟨total, -, hgives, hoperations, hfailures, -, hexpected⟩ := hreports _ (List.Perm.refl _)
  obtain ⟨hfails, -, hnames⟩ := hstops rfl
  have htwo : (runLog counters patient engine).countP (·.Failed) = 2 := by decide +kernel
  have hfirst : addends (successes (runLog counters patient engine)) (storageKey 0) = [1, 1] := by
    decide +kernel
  have hsecond : addends (successes (runLog counters patient engine)) (storageKey 1) = [] := by
    decide +kernel
  have hplace : ((runLog counters strict engine).find? (·.Failed)).map
      (fun entry => (entry.worker, entry.index, entry.result)) =
        some (0, 1, .error (.engineWrite "disk full")) := by
    decide +kernel
  have hsome : ∃ entry ∈ runLog counters strict engine, entry.Failed := by decide +kernel
  obtain ⟨error, herror⟩ := hfails.mpr hsome
  obtain ⟨first, cause, hfind, hcause, rfl⟩ := hnames error herror
  rw [hfind, Option.map_some, hcause] at hplace
  obtain ⟨hworker, hindex, hsame⟩ : first.worker = 0 ∧ first.index = 1 ∧
      (Except.error cause : Except Failure Unit) = .error (.engineWrite "disk full") := by
    simpa using hplace
  rw [hworker, hindex, Except.error.inj hsame] at herror
  refine ⟨hpatient, hstrict, ⟨total, _, hgives, hoperations, hfailures.trans htwo, ?_, ?_⟩, herror⟩
  · rw [hexpected, hfirst]
    rfl
  · rw [hexpected, hsecond]
    rfl

end LazyTally.Workload
