import Mathlib.Data.List.Forall2
import LazyTally.Proofs.Sinks
import LazyTally.Session.Run

/-!
# Statistics are advisory

The engine with its operator, the counters, both or none of them may have a sink, the statistics
may have counted anything before, and whoever shares them may change them at any time.  None of
this is ever seen by those who use the store.  Two sessions that look alike to their clients answer
a request alike, because what the request does in either of them follows what it does without any
sink; they look alike afterwards, and so, by induction on the steps, they answer alike for as long
as they run.  Each of them counts for itself what it reports, if the part that reports it has a sink.

## Main definitions

* `Session.Visible`, `Session.visible` — what the clients of a session can see of it.
* `Session.metered` — the parts of a session that have a sink.
* `Session.countedAfter` — the statistics after a step that reports events.
* `Session.Counted` — what an outcome has reported was counted.
* `Session.Watch`, `Session.run` — which parts get a sink and what was counted, and a run of steps
  between which both may be changed.
* `Session.Outcome.Same` — two outcomes that are alike for those who use the store.

## Main results

* `Session.ask_agree` — what a request does, under any two choices of sinks.
* `Session.same_step` — two sessions that look alike take a step alike.
* `Session.counts_step` — what a session counts in a step.
* `Session.same_run` — two sessions that look alike take all steps alike.
* `Session.statistics_advisory` — the same steps have the same outcomes, whatever is counted.
-/

namespace LazyTally
namespace Session

/-! ### What is seen of a session -/

/-- The store with another view of its engine. -/
def Phase.map {ε ε' : Type} (f : ε → ε') : Phase ε → Phase ε'
  | .opened engine => .opened (f engine)
  | .closed store => .closed store

/-- What the clients of a session can see of it. -/
structure Visible where
  /-- What an absent counter reads as. -/
  default : UInt64
  /-- How counters are added to. -/
  strategy : Counters.Strategy
  /-- The store: the engine with memtable and runs, or the closed store. -/
  phase : Phase Layered
  /-- The calls that fail before they reach the engine. -/
  refusals : Engine.Refusals
  /-- The report of the last workload that gave one. -/
  lastReport : Workload.Report

/-- The session without sinks and statistics. -/
def visible (session : Session) : Visible where
  default := session.default
  strategy := session.strategy
  phase := session.phase.map fun opened => opened.1.unmetered opened.2
  refusals := session.refusals
  lastReport := session.lastReport

/-- The parts of the session that have a sink. -/
def metered (session : Session) : Meter where
  engine :=
    match session.phase with
    | .opened (engine, _) => engine.sink.isSome
    | .closed _ => false
  counters := session.meter.counters

/-- Two outcomes are alike for those who use the store. -/
structure Outcome.Same (outcome other : Outcome) : Prop where
  /-- The answer or the failure. -/
  result : outcome.result = other.result
  /-- What is seen of the session afterwards, with the records of all layers. -/
  visible : outcome.session.visible = other.session.visible
  /-- What was reported, and with it what was logged. -/
  events : outcome.events = other.events

/-! ### One request -/

/-- The counters that clients see. -/
def Visible.counters (visible : Visible) (strategy : Option Counters.Strategy) :
    Counters Layered where
  engine := Layered.engine.refusing visible.refusals
  default := visible.default
  strategy := strategy.getD visible.strategy

theorem shows_counters (session : Session) (engine : Layered.Metered)
    (strategy : Option Counters.Strategy) :
    Counters.Metered.Shows ⟨engine.sink.isSome, session.meter.counters⟩ engine.unmetered
      (session.counters engine strategy) (session.visible.counters strategy) where
  default_eq := rfl
  strategy_eq := rfl
  sink_eq := by
    show _ = Option.isSome (if session.meter.counters then _ else none)
    cases session.meter.counters <;> rfl
  engine := engine.follows.refusing session.refusals

section

variable {meter meter' : Meter} {α : Type} {embed : Layers → Layered} {layers : Layers}

/-- A call of the counters is a request with the same answer, whichever of them is asked. -/
theorem agree_viaCounters {x x' : Call Counters.Event (Supplied Layers) α}
    {plain : Call Counters.Event Layered α} (hembed : Function.Injective embed) (reply : α → Reply)
    (h : x.Follows meter.ticker? embed plain layers)
    (h' : x'.Follows meter'.ticker? embed plain layers) :
    Call.Agree (Workload.ticker? meter) (Workload.ticker? meter') (viaCounters reply x)
      (viaCounters reply x') layers := by
  have hseen : Call.Agree (Workload.ticker? meter) (Workload.ticker? meter')
      (x.relabel Workload.Event.counters) (x'.relabel Workload.Event.counters) layers :=
    Call.Agree.relabel (h.agree hembed h')
  exact hseen.bind_pure _

/-- So is a call of the engine. -/
theorem agree_viaEngine {x x' : Call Engine.Event (Supplied Layers) α}
    {plain : Call Engine.Event Layered α} (hembed : Function.Injective embed) (reply : α → Reply)
    (h : x.Follows (fun event => meter.ticker? (.engine event)) embed plain layers)
    (h' : x'.Follows (fun event => meter'.ticker? (.engine event)) embed plain layers) :
    Call.Agree (Workload.ticker? meter) (Workload.ticker? meter') (viaEngine reply x)
      (viaEngine reply x') layers := by
  have hseen : (x.relabel Counters.Event.engine).Follows meter.ticker? embed
      (plain.relabel Counters.Event.engine) layers := Call.Follows.relabel h
  have hseen' : (x'.relabel Counters.Event.engine).Follows meter'.ticker? embed
      (plain.relabel Counters.Event.engine) layers := Call.Follows.relabel h'
  exact agree_viaCounters hembed reply hseen hseen'

end

/-- Under any two choices of sinks, a request has the same answer and leaves the same layers. -/
theorem ask_agree {first second : Session} (h : first.visible = second.visible)
    {engine other : Layered.Metered} (hengine : engine.unmetered = other.unmetered)
    (strategy : Option Counters.Strategy) (request : Request) (layers : Layers) :
    Call.Agree (Workload.ticker? ⟨engine.sink.isSome, first.meter.counters⟩)
      (Workload.ticker? ⟨other.sink.isSome, second.meter.counters⟩)
      (first.ask (first.counters engine strategy) request)
      (second.ask (second.counters other strategy) request) layers := by
  have hfirst := first.shows_counters engine strategy
  have hsecond := second.shows_counters other strategy
  -- in one engine two layers look alike only if they are the same
  have hembed := other.unmetered_injective
  -- what the sessions look up before the engine is asked is seen by their clients
  have hreport : first.lastReport = second.lastReport := congrArg Visible.lastReport h
  have hstrategy : (first.counters engine strategy).strategy =
      (second.counters other strategy).strategy :=
    congrArg (fun seen : Visible => strategy.getD seen.strategy) h
  -- both then follow one call without sinks
  rw [hengine, h] at hfirst
  cases request with
  | strategy =>
    simp only [ask, hstrategy]
    exact Call.agree_pure _
  | set key value =>
    exact agree_viaCounters hembed done (hfirst.follows_set key value layers)
      (hsecond.follows_set key value layers)
  | get key =>
    exact agree_viaCounters hembed .count (hfirst.follows_get key layers)
      (hsecond.follows_get key layers)
  | remove key =>
    exact agree_viaCounters hembed done (hfirst.follows_remove key layers)
      (hsecond.follows_remove key layers)
  | add key delta =>
    exact agree_viaCounters hembed done (hfirst.follows_add key delta layers)
      (hsecond.follows_add key delta layers)
  | rawPut key value =>
    exact agree_viaEngine hembed done (hfirst.engine.put key value layers)
      (hsecond.engine.put key value layers)
  | rawMerge key operand =>
    exact agree_viaEngine hembed done (hfirst.engine.merge key operand layers)
      (hsecond.engine.merge key operand layers)
  | rawDelete key =>
    exact agree_viaEngine hembed done (hfirst.engine.delete key layers)
      (hsecond.engine.delete key layers)
  | rawGet key =>
    exact agree_viaEngine hembed .bytes (hfirst.engine.get key layers)
      (hsecond.engine.get key layers)
  | write batch =>
    exact agree_viaEngine hembed done (hfirst.engine.write batch layers)
      (hsecond.engine.write batch layers)
  | flush =>
    exact agree_viaEngine hembed done (hfirst.engine.flush layers)
      (hsecond.engine.flush layers)
  | compact =>
    exact agree_viaEngine hembed done (hfirst.engine.compact layers)
      (hsecond.engine.compact layers)
  | dump =>
    exact agree_viaEngine hembed .entries (hfirst.engine.dump layers)
      (hsecond.engine.dump layers)
  | records => exact Call.agree_read.bind_pure _
  | workload config =>
    simp only [ask]
    cases Workload.Config.ofJson? config with
    | none => exact Call.agree_pure _
    | some config =>
      -- all adds of all workers follow the same adds
      have hrun := (Workload.follows_runWith hfirst.follows_add config layers).agree hembed
        (Workload.follows_runWith hsecond.follows_add config layers)
      exact hrun.bind_pure _
  | mismatches base expected =>
    simp only [ask, comparedReport, hreport]
    exact agree_viaCounters hembed .mismatches
      (Workload.Report.follows_mismatchesWith hfirst.follows_get _ base layers)
      (Workload.Report.follows_mismatchesWith hsecond.follows_get _ base layers)

/-! ### Two sessions side by side -/

variable {first second : Session}

theorem visible_remembering (h : first.visible = second.visible)
    (result : Except Failure Reply) :
    (first.remembering result).visible = (second.remembering result).visible := by
  unfold remembering
  split
  · next report => exact congrArg (fun seen : Visible => { seen with lastReport := report }) h
  · exact h

/-- The session with other layers and statistics looks like the one with these layers. -/
theorem visible_opened (session : Session) (engine : Layered.Metered) (layers : Layers)
    (statistics : Statistics) :
    { session with phase := .opened (engine, layers), statistics := statistics }.visible =
      { session.visible with phase := .opened (engine.unmetered layers) } := rfl

theorem same_onEngine (h : first.visible = second.visible) {engine other : Layered.Metered}
    (hengine : engine.unmetered = other.unmetered) (layers : Layers)
    (strategy : Option Counters.Strategy) (request : Request) :
    (first.onEngine engine layers strategy request).Same
      (second.onEngine other layers strategy request) := by
  obtain ⟨answer, after, events, hfirst, hsecond⟩ := ask_agree h hengine strategy request layers
  unfold onEngine
  rw [hfirst, hsecond]
  refine ⟨rfl, visible_remembering ?_ _, rfl⟩
  rw [visible_opened, visible_opened, h, hengine]

/-- Either both sessions are closed with the same store, or both are open with the same layers and
engines that differ in their sinks only. -/
theorem phases_of_visible (h : first.visible = second.visible) :
    (∃ store, first.phase = .closed store ∧ second.phase = .closed store) ∨
      ∃ engine other layers, first.phase = .opened (engine, layers) ∧
        second.phase = .opened (other, layers) ∧ engine.unmetered = other.unmetered := by
  have hphase := congrArg Visible.phase h
  dsimp only [visible] at hphase
  cases hfirst : first.phase with
  | closed store =>
    rw [hfirst] at hphase
    cases hsecond : second.phase with
    | closed other =>
      rw [hsecond] at hphase
      exact .inl ⟨store, rfl, congrArg Phase.closed (Phase.closed.inj hphase).symm⟩
    | opened other =>
      rw [hsecond] at hphase
      cases hphase
  | opened engine =>
    rw [hfirst] at hphase
    cases hsecond : second.phase with
    | closed other =>
      rw [hsecond] at hphase
      cases hphase
    | opened other =>
      rw [hsecond] at hphase
      obtain ⟨engine, layers⟩ := engine
      obtain ⟨other, layers'⟩ := other
      have hopened : engine.unmetered layers = other.unmetered layers' := Phase.opened.inj hphase
      obtain rfl : layers = layers' := congrArg Layered.toLayers hopened
      -- what is fixed about an engine does not depend on its layers
      have hengine : engine.unmetered = other.unmetered := funext fun seen =>
        congrArg (fun plain : Layered => { plain with toLayers := seen }) hopened
      exact .inr ⟨engine, other, layers, rfl, rfl, hengine⟩

theorem same_answer (h : first.visible = second.visible) (strategy : Option Counters.Strategy)
    (request : Request) : (first.answer strategy request).Same (second.answer strategy request) := by
  unfold answer
  rcases phases_of_visible h with ⟨store, hfirst, hsecond⟩ |
    ⟨engine, other, layers, hfirst, hsecond, hengine⟩
  · rw [hfirst, hsecond]
    exact ⟨rfl, h, rfl⟩
  · rw [hfirst, hsecond]
    exact same_onEngine h hengine layers strategy request

/-- A request that is repeated is repeated as often in both sessions. -/
theorem same_answerAgain (strategy : Option Counters.Strategy) (request : Request) (more : Nat)
    (h : first.visible = second.visible) :
    (answerAgain strategy request more first).Same (answerAgain strategy request more second) := by
  induction more generalizing first second with
  | zero => exact same_answer h strategy request
  | succ more ih =>
    have hanswer := same_answer h strategy request
    have hrest := ih hanswer.visible
    dsimp only [answerAgain]
    rw [← hanswer.result]
    cases (first.answer strategy request).result with
    | error failure => exact hanswer
    | ok reply =>
      refine ⟨hrest.result, hrest.visible, ?_⟩
      exact congrArg₂ List.append hanswer.events hrest.events

/-- An engine is opened in the same way with every sink. -/
theorem same_openStore (h : first.visible = second.visible) (store : Store) (options : Options) :
    (first.openStore store options).Same (second.openStore store options) := by
  have hopened := (Layered.Metered.unmetered_ofStore store options first.meter.engineSink).trans
    (Layered.Metered.unmetered_ofStore store options second.meter.engineSink).symm
  have hresult := congrArg Attempt.result hopened
  have hevents := congrArg Attempt.events hopened
  rw [Attempt.result_map, Attempt.result_map] at hresult
  rw [Attempt.events_map, Attempt.events_map] at hevents
  -- what the attempts give looks alike, so either both fail or both open
  dsimp only [openStore]
  rw [hevents]
  revert hresult
  cases (Layered.Metered.ofStore store options first.meter.engineSink).result with
  | ok engine =>
    cases (Layered.Metered.ofStore store options second.meter.engineSink).result with
    | ok other =>
      intro hresult
      have hengine : engine.1.unmetered engine.2 = other.1.unmetered other.2 :=
        Except.ok.inj hresult
      refine ⟨rfl, ?_, rfl⟩
      show ({ first.visible with phase := .opened (engine.1.unmetered engine.2) } : Visible) =
        { second.visible with phase := .opened (other.1.unmetered other.2) }
      rw [h, hengine]
    | error failure =>
      -- one was opened and the other refused
      intro hresult
      cases hresult
  | error failure =>
    cases (Layered.Metered.ofStore store options second.meter.engineSink).result with
    | ok other =>
      intro hresult
      cases hresult
    | error other =>
      intro hresult
      obtain rfl := Except.error.inj hresult
      exact ⟨rfl, congrArg (fun seen : Visible => { seen with phase := .closed store }) h, rfl⟩

theorem store_eq_of_visible (h : first.visible = second.visible) : first.store = second.store := by
  unfold store
  rcases phases_of_visible h with ⟨store, hfirst, hsecond⟩ |
    ⟨engine, other, layers, hfirst, hsecond, hengine⟩
  · rw [hfirst, hsecond]
  · rw [hfirst, hsecond]
    exact congrArg (fun view : Layers → Layered => (view layers).close) hengine

/-- Two sessions that look alike take a step alike. -/
theorem same_step (h : first.visible = second.visible) (step : Step) :
    (first.step step).Same (second.step step) := by
  cases step with
  | request request times strategy =>
    simp only [Session.step]
    -- a closed store has no sinks
    rcases phases_of_visible h with ⟨store, hfirst, hsecond⟩ |
      ⟨engine, other, layers, hfirst, hsecond, -⟩
    · rw [hfirst, hsecond]
      exact ⟨rfl, h, rfl⟩
    · rw [hfirst, hsecond]
      cases times with
      | zero => exact ⟨rfl, h, rfl⟩
      | succ more => exact same_answerAgain strategy request more h
  | reopen options =>
    simp only [Session.step]
    cases readOptions? options with
    | none => exact ⟨rfl, h, rfl⟩
    | some options =>
      -- the engines are closed to the same store, whichever sinks they had
      rw [← store_eq_of_visible h]
      exact same_openStore h first.store options
  | resetStatistics => exact ⟨rfl, h, rfl⟩
  | refuse refusals =>
    exact ⟨rfl, congrArg (fun seen : Visible => { seen with refusals := refusals }) h, rfl⟩

/-! ### What is counted -/

/-- The statistics after a step that reports the events. -/
def countedAfter (session : Session) (events : List Workload.Event) : Step → Statistics
  | .resetStatistics => session.statistics.reset
  | .request _ _ _ | .reopen _ | .refuse _ =>
      session.statistics.recordAll (events.filterMap (Workload.ticker? session.metered))

/-- With the outcome, the session has counted what was reported, as far as the parts that reported
it have a sink. -/
def Counted (session : Session) (outcome : Outcome) : Prop :=
  outcome.session.statistics =
    session.statistics.recordAll (outcome.events.filterMap (Workload.ticker? session.metered))

section

variable (session : Session)

theorem statistics_remembering (result : Except Failure Reply) :
    (session.remembering result).statistics = session.statistics := by
  unfold remembering
  split <;> rfl

theorem metered_remembering (result : Except Failure Reply) :
    (session.remembering result).metered = session.metered := by
  unfold remembering
  split <;> rfl

/-- A request leaves the sinks where they are. -/
theorem metered_answer (strategy : Option Counters.Strategy) (request : Request) :
    (session.answer strategy request).session.metered = session.metered := by
  unfold answer
  cases hphase : session.phase with
  | closed store => rfl
  | opened engine =>
    refine (metered_remembering _ _).trans ?_
    dsimp only [metered]
    rw [hphase]

/-- A request counts what it reports. -/
theorem counted_answer (strategy : Option Counters.Strategy) (request : Request) :
    session.Counted (session.answer strategy request) := by
  unfold Counted answer metered
  cases session.phase with
  | closed store => rfl
  | opened engine =>
    obtain ⟨engine, layers⟩ := engine
    obtain ⟨answer, after, events, hanswer, -⟩ :=
      ask_agree (rfl : session.visible = session.visible) (rfl : engine.unmetered = _) strategy
        request layers
    dsimp only [onEngine]
    rw [hanswer session.statistics, statistics_remembering]

/-- The repetitions of a request are counted one after the other. -/
theorem counted_answerAgain (strategy : Option Counters.Strategy) (request : Request)
    (more : Nat) : session.Counted (answerAgain strategy request more session) := by
  induction more generalizing session with
  | zero => exact session.counted_answer strategy request
  | succ more ih =>
    have hfirst := session.counted_answer strategy request
    have hrest := ih (session.answer strategy request).session
    unfold Counted at hfirst hrest ⊢
    -- the sinks are where they were, so the rest goes on with what the first has counted
    rw [metered_answer, hfirst] at hrest
    dsimp only [answerAgain]
    cases (session.answer strategy request).result with
    | error failure => exact hfirst
    | ok reply =>
      rw [List.filterMap_append, Statistics.recordAll_append]
      exact hrest

/-- To open a store is not counted, whether it is opened or refused. -/
theorem counted_openStore (store : Store) (options : Options) :
    session.Counted (session.openStore store options) := by
  unfold Counted openStore Layered.Metered.ofStore Layered.checkOperator
  by_cases h : store.operator = none ∨ store.operator = options.operatorName?
  · rw [if_pos h]
    rfl
  · rw [if_neg h]
    -- the one event that is reported raises no ticker
    have hquiet : Workload.ticker? session.metered (.counters (.engine
        (.operatorMismatch store.operator options.operatorName?))) = none := ite_self none
    show session.statistics = session.statistics.recordAll
      ([Workload.Event.counters (.engine (.operatorMismatch store.operator
        options.operatorName?))].filterMap (Workload.ticker? session.metered))
    rw [List.filterMap_cons_none hquiet]
    rfl

/-- After a step the statistics have counted what the step has reported. -/
theorem counts_step (step : Step) :
    (session.step step).session.statistics =
      session.countedAfter (session.step step).events step := by
  cases step with
  | request request times strategy =>
    simp only [Session.step]
    cases session.phase with
    | closed store => rfl
    | opened engine =>
      cases times with
      | zero => rfl
      | succ more => exact session.counted_answerAgain strategy request more
  | reopen options =>
    simp only [Session.step]
    cases readOptions? options with
    | none => rfl
    | some options => exact session.counted_openStore session.store options
  | resetStatistics => rfl
  | refuse refusals => rfl

end

/-! ### Runs of steps -/

/-- What a session is watched by. -/
structure Watch where
  /-- The parts of the store that are given a sink: the counters from now on, the engine and its
  operator when it is opened. -/
  meter : Meter
  /-- What was counted so far. -/
  statistics : Statistics

/-- The session after someone else has changed its watch, or has left it. -/
def watchedAnew (session : Session) : Option Watch → Session
  | none => session
  | some watch => { session with meter := watch.meter, statistics := watch.statistics }

/-- Answers one step after the other.  Before each of them the watch may be changed. -/
def run (session : Session) : List (Option Watch × Step) → List Outcome
  | [] => []
  | (watch, step) :: rest =>
      let outcome := (session.watchedAnew watch).step step
      outcome :: outcome.session.run rest

theorem visible_watchedAnew (session : Session) (watch : Option Watch) :
    (session.watchedAnew watch).visible = session.visible := by
  cases watch <;> rfl

/-- A store is opened alike by sessions that have answered nothing yet. -/
theorem same_opening (first second : Watch) (default : UInt64) (strategy : Counters.Strategy)
    (store : Store) (options : Options) :
    (opening first.meter first.statistics default strategy store options).Same
      (opening second.meter second.statistics default strategy store options) := by
  have hblank : (blank first.meter first.statistics default strategy store).visible =
      (blank second.meter second.statistics default strategy store).visible := rfl
  exact same_openStore hblank store options

/-- Sessions that look alike have like outcomes, step by step, however they are watched. -/
theorem same_run (h : first.visible = second.visible)
    (script : List (Step × Option Watch × Option Watch)) :
    List.Forall₂ Outcome.Same (first.run (script.map fun entry => (entry.2.1, entry.1)))
      (second.run (script.map fun entry => (entry.2.2, entry.1))) := by
  induction script generalizing first second with
  | nil => exact .nil
  | cons entry rest ih =>
    obtain ⟨step, watch, other⟩ := entry
    have hwatched : (first.watchedAnew watch).visible = (second.watchedAnew other).visible := by
      rw [visible_watchedAnew, visible_watchedAnew, h]
    have hstep := same_step hwatched step
    exact .cons hstep (ih hstep.visible)

/-- Statistics are advisory.  Whichever parts of a store have a sink, in two sessions or from one
step to the next, and whatever was counted before: the store is opened or refused alike, and the
same steps have the same answers and failures and leave the same records.  The statistics of a
session count what it reports, as far as the parts that report it have a sink. -/
theorem statistics_advisory (default : UInt64) (strategy : Counters.Strategy) (store : Store)
    (options : Options) (first second : Watch)
    (script : List (Step × Option Watch × Option Watch)) :
    let opened := opening first.meter first.statistics default strategy store options
    let opened' := opening second.meter second.statistics default strategy store options
    opened.Same opened' ∧
      List.Forall₂ Outcome.Same
        (opened.session.run (script.map fun entry => (entry.2.1, entry.1)))
        (opened'.session.run (script.map fun entry => (entry.2.2, entry.1))) ∧
      ∀ (session : Session) (step : Step), (session.step step).session.statistics =
        session.countedAfter (session.step step).events step := by
  intro opened opened'
  have hopened : opened.Same opened' := same_opening first second default strategy store options
  exact ⟨hopened, same_run hopened.visible script, counts_step⟩

/-- A ticker at its largest count wraps when a counter is read, and stays as it is without a sink;
the counter is read all the same. -/
example :
    let full := Statistics.empty.record .fullMerge 18446744073709551615
    let read (meter : Meter) := ((opening meter full 0 .merge .empty
      ⟨some .associative, 0, true⟩).session.step (.request (.add [1] 2) 1 none)).session.step
        (.request (.get [1]) 1 none)
    (read ⟨true, false⟩).result = .ok (.count 2) ∧ (read ⟨false, false⟩).result = .ok (.count 2) ∧
      (read ⟨true, false⟩).session.statistics.get .fullMerge = 0 ∧
      (read ⟨false, false⟩).session.statistics.get .fullMerge = 18446744073709551615 :=
  ⟨rfl, rfl, by decide, by decide⟩

end Session
end LazyTally
