import LazyTally.Counters.Metered
import LazyTally.Engine.Metered
import LazyTally.Metrics.Meter
import LazyTally.Session.Step

/-!
# Sessions

A session holds a store, open or closed, and the counters in it, and answers one
step after the other.  It keeps the statistics, the refusals and the last report
of a workload over closing and opening again.  The engine gets its sink, if any, when
it is opened, and the counters get theirs when a request is made; both count into
the statistics of the session while they work.

## Main definitions

* `Session.Phase` — a store, with its engine while it is open.
* `Session` — the state between steps.
* `Session.start` — a session on an empty store.
* `Session.ask` — what a request does to the open engine.
* `Session.step` — answers one step.
-/

namespace LazyTally

/-- A store, with its engine while it is open. -/
inductive Session.Phase (ε : Type) where
  /-- The engine is open. -/
  | opened (engine : ε)
  /-- The engine is closed. -/
  | closed (store : Store)

/-- The state of a session between steps. -/
structure Session where
  /-- The parts of the store that are given a sink. -/
  meter : Meter
  /-- What an absent counter reads as. -/
  default : UInt64
  /-- How counters are added to, unless a step says otherwise. -/
  strategy : Counters.Strategy
  /-- The store. -/
  phase : Session.Phase (Layered.Metered × Layers)
  /-- The calls that fail before they reach the engine. -/
  refusals : Engine.Refusals
  /-- What was counted so far. -/
  statistics : Statistics
  /-- The report of the last workload that gave one. -/
  lastReport : Workload.Report

namespace Session

/-- What a step gives back. -/
structure Outcome where
  /-- The answer, or why there is none. -/
  result : Except Failure Reply
  /-- The session afterwards. -/
  session : Session
  /-- What was reported, oldest first. -/
  events : List Workload.Event

/-- The open engine, without its sink. -/
def engine? (session : Session) : Option Layered :=
  match session.phase with
  | .opened (engine, layers) => some (engine.unmetered layers)
  | .closed _ => none

/-- The store of the session, closed if it is open. -/
def store (session : Session) : Store :=
  match session.phase with
  | .opened (engine, layers) => engine.close layers
  | .closed store => store

/-! ### Requests -/

/-- The counters of a session, in an engine behind its refusals. -/
def counters (session : Session) (engine : Layered.Metered)
    (strategy : Option Counters.Strategy) : Counters.Metered Layers where
  engine := engine.engine.refusing session.refusals
  default := session.default
  strategy := strategy.getD session.strategy
  sink := session.meter.countersSink

/-- What a request does to layers and statistics. -/
abbrev Asked := Call Workload.Event (Supplied Layers) (Except Failure Reply)

/-- A call of the counters as a request. -/
def viaCounters {α : Type} (reply : α → Reply)
    (call : Call Counters.Event (Supplied Layers) α) : Asked := do
  return .ok (reply (← call.relabel Workload.Event.counters))

/-- A call of the engine as a request. -/
def viaEngine {α : Type} (reply : α → Reply)
    (call : Call Engine.Event (Supplied Layers) α) : Asked :=
  viaCounters reply (call.relabel Counters.Event.engine)

/-- Nothing to tell. -/
def done (_ : Unit) : Reply := .done

/-- The report that a comparison uses. -/
def comparedReport (session : Session) : Option (KeyMap UInt64) → Workload.Report
  | some expected => { Workload.Report.empty with expected := expected }
  | none => session.lastReport

/-- What a request does to the open engine. -/
def ask (session : Session) (counters : Counters.Metered Layers) : Request → Asked
  | .set key value => viaCounters done (counters.set key value)
  | .get key => viaCounters .count (counters.get key)
  | .remove key => viaCounters done (counters.remove key)
  | .add key delta => viaCounters done (counters.add key delta)
  | .strategy => pure (.ok (.strategy counters.strategy))
  | .rawPut key value => viaEngine done (counters.engine.put key value)
  | .rawMerge key operand => viaEngine done (counters.engine.merge key operand)
  | .rawDelete key => viaEngine done (counters.engine.delete key)
  | .rawGet key => viaEngine .bytes (counters.engine.get key)
  | .write batch => viaEngine done (counters.engine.write batch)
  | .flush => viaEngine done counters.engine.flush
  | .compact => viaEngine done counters.engine.compact
  | .dump => viaEngine .entries counters.engine.dump
  | .records => do return .ok (.layers (← Supplied.read))
  | .workload config =>
      match Workload.Config.ofJson? config with
      | none => pure (.error .unreadable)
      | some config => do
          return ((← Workload.runWith counters.add config).map Reply.report).mapError
            Failure.workload
  | .mismatches base expected =>
      viaCounters .mismatches
        ((session.comparedReport expected).mismatchesWith counters.get base)

/-- The answer of a request, with failures of the store among the others. -/
def joined : Except LazyTally.Failure (Except Failure Reply) → Except Failure Reply
  | .ok result => result
  | .error failure => .error (.store failure)

/-- The session with the report of a workload that gave one. -/
def remembering (session : Session) : Except Failure Reply → Session
  | .ok (.report report) => { session with lastReport := report }
  | _ => session

/-- Answers a request on the open engine. -/
def onEngine (session : Session) (engine : Layered.Metered) (layers : Layers)
    (strategy : Option Counters.Strategy) (request : Request) : Outcome :=
  let asked := (session.ask (session.counters engine strategy) request).outcome
    ⟨layers, session.statistics⟩
  let result := joined asked.value.1
  let session := { session with
    phase := .opened (engine, asked.value.2.state)
    statistics := asked.value.2.statistics }
  ⟨result, session.remembering result, asked.events⟩

/-- Answers a request. -/
def answer (session : Session) (strategy : Option Counters.Strategy) (request : Request) :
    Outcome :=
  match session.phase with
  | .opened (engine, layers) => session.onEngine engine layers strategy request
  | .closed _ => ⟨.error .closed, session, []⟩

/-- Answers a request once and then `more` times, up to the first failure. -/
def answerAgain (strategy : Option Counters.Strategy) (request : Request) :
    (more : Nat) → Session → Outcome
  | 0, session => session.answer strategy request
  | more + 1, session =>
      let first := session.answer strategy request
      match first.result with
      | .error _ => first
      | .ok _ =>
          let rest := answerAgain strategy request more first.session
          { rest with events := first.events ++ rest.events }

/-! ### Opening and closing -/

/-- Opens a store with options, in place of what the session held.  To open a store is
no work that is counted. -/
def openStore (session : Session) (store : Store) (options : Options) : Outcome :=
  let opened := Layered.Metered.ofStore store options session.meter.engineSink
  let events := opened.events.map fun event => Workload.Event.counters (.engine event)
  match opened.result with
  | .ok engine => ⟨.ok (.opened store.operator), { session with phase := .opened engine }, events⟩
  | .error failure =>
      ⟨.error (.store failure), { session with phase := .closed store }, events⟩

/-- The options that a step names. -/
def readOptions? : Option Json → Option Options
  | none => some Options.standard
  | some json => Options.ofJson? json

/-! ### Sessions as a whole -/

/-- Answers one step. -/
def step (session : Session) : Step → Outcome
  | .request request times strategy =>
      match session.phase, times with
      | .closed _, _ => ⟨.error .closed, session, []⟩
      | .opened _, 0 => ⟨.ok .done, session, []⟩
      | .opened _, times + 1 => answerAgain strategy request times session
  | .reopen options =>
      match readOptions? options with
      | none => ⟨.error .unreadable, session, []⟩
      | some options => session.openStore session.store options
  | .resetStatistics => ⟨.ok .done, { session with statistics := session.statistics.reset }, []⟩
  | .refuse refusals => ⟨.ok .done, { session with refusals := refusals }, []⟩

/-- A session that has answered nothing yet, on a closed store. -/
def blank (meter : Meter) (statistics : Statistics) (default : UInt64)
    (strategy : Counters.Strategy) (store : Store) : Session where
  meter := meter
  default := default
  strategy := strategy
  phase := .closed store
  refusals := .none
  statistics := statistics
  lastReport := .empty

/-- The outcome of opening a store in a session that has answered nothing yet. -/
def opening (meter : Meter) (statistics : Statistics) (default : UInt64)
    (strategy : Counters.Strategy) (store : Store) (options : Options) : Outcome :=
  (blank meter statistics default strategy store).openStore store options

/-- A session on an empty store. -/
def start (meter : Meter) (default : UInt64) (strategy : Counters.Strategy) (options : Options) :
    Session := (opening meter .empty default strategy .empty options).session

end Session
end LazyTally
