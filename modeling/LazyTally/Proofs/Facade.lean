import LazyTally.Engine.Layered
import LazyTally.Engine.Refusing
import LazyTally.Proofs.Metering
import LazyTally.Proofs.Resolved

/-!
# Counters on any engine

Counters pass on what their engine does, whatever the engine is and whenever it fails.  They add
nothing to it but one failure: what the engine has for a counter may not be one.  An addition that
reads first has nothing to write if it cannot read.  The reads and writes that are issued are
counted before the engine is called, and so they are counted if it fails.

## Main definitions

* `Counters.answer` — what a counter reads as, told by what the engine gives for it.
* `Counters.PassesOn` — what the calls on a counter do, told by calls on the engine.
* `Counters.Request`, `Counters.serve` — a call of the counters, and a sequence of calls that goes
  on after failures.
* `Counters.Request.issues`, `Counters.issued` — the tickers of a request and of a sequence.

## Main results

* `Counters.passesOn` — counters pass on what any engine does.
* `Counters.tickers_serve` — the tickers that a sequence raises, in order.
* `Counters.passes_on_and_counts` — what counters on any engine do and how it is counted.
-/

namespace LazyTally

/-- On the state the call gives what another gives, and leaves what that leaves. -/
def Call.Mirrors {ω ω' σ α : Type} (call : Call ω σ α) (other : Call ω' σ α) (state : σ) : Prop :=
  call.result state = other.result state ∧ call.after state = other.after state

namespace Counters

variable {σ : Type}

/-- What a counter reads as, told by what the engine gives for it. -/
def answer (counters : Counters σ) (key : Bytes) :
    Except Failure (Option Bytes) → Except Failure UInt64
  | .error failure => .error failure
  | .ok none => .ok counters.default
  | .ok (some bytes) =>
      if bytes.length = Counter.size then .ok (Counter.count bytes)
      else .error (.corruption key bytes.length)

/-- What the calls on a counter do on a state, told by the calls on the engine. -/
structure PassesOn (counters : Counters σ) (key : Bytes) (state : σ) : Prop where
  /-- To set a counter is to put its value. -/
  set : ∀ value,
    (counters.set key value).Mirrors (counters.engine.put key (Counter.encode value)) state
  /-- To remove a counter is to delete its key. -/
  remove : (counters.remove key).Mirrors (counters.engine.delete key) state
  /-- A counter reads as what the engine gives for it. -/
  get : (counters.get key).result state =
    counters.answer key ((counters.engine.get key).result state)
  /-- To read a counter leaves what the engine leaves. -/
  reads : (counters.get key).after state = (counters.engine.get key).after state
  /-- To add by merging is to merge the addend. -/
  merge : counters.strategy = .merge → ∀ delta,
    (counters.add key delta).Mirrors (counters.engine.merge key (Counter.encode delta)) state
  /-- To add by reading fails if the counter cannot be read, and then the read is all that happens
  to the engine. -/
  unread : counters.strategy = .readModifyWrite → ∀ delta failure,
    (counters.get key).result state = .error failure →
      (counters.add key delta).result state = .error failure ∧
        (counters.add key delta).after state = (counters.engine.get key).after state ∧
        (counters.add key delta).events state = (counters.get key).events state
  /-- Else it puts the sum, in the state that the read left. -/
  written : counters.strategy = .readModifyWrite → ∀ delta value,
    (counters.get key).result state = .ok value →
      (counters.add key delta).result state =
          (counters.engine.put key (Counter.encode (value + delta))).result
            ((counters.engine.get key).after state) ∧
        (counters.add key delta).after state =
          (counters.engine.put key (Counter.encode (value + delta))).after
            ((counters.engine.get key).after state)

/-! ### What the calls do -/

section

variable {α : Type} (action : Action) (key : Bytes) (call : Call Engine.Event σ α) (state : σ)

/-- A call that is issued on the engine gives and leaves what it does there. -/
theorem mirrors_issue : (issue action key call).Mirrors call state := by
  have hcaught := Call.gives_caught (call.relabel Event.engine) state
  have hsame : (call.relabel Event.engine).result state = call.result state := rfl
  rw [hsame] at hcaught
  constructor
  · refine (hcaught.result_bind _).trans ?_
    cases call.result state <;> rfl
  · refine (hcaught.after_bind _).trans ?_
    cases call.result state <;> rfl

/-- Of its own the facade counts nothing when a call fails or succeeds. -/
theorem tickers_issue : (issue action key call).tickers Event.ticker? state = [] := by
  have hcaught := Call.gives_caught (call.relabel Event.engine) state
  have hquiet : (call.relabel Event.engine).tickers Event.ticker? state = [] := by
    rw [Call.tickers_relabel]
    exact Traced.tickers_eq_nil (fun _ => rfl) _
  refine (hcaught.tickers_bind _).trans ?_
  rw [Call.tickers_caught, hquiet, List.nil_append]
  cases (call.relabel Event.engine).result state with
  | ok value => exact Call.tickers_pure value _
  | error failure => rfl

/-- What is reported in front of a call does not show in what it gives and leaves. -/
theorem mirrors_report (event : Event) :
    Call.Mirrors (report event >>= fun _ => issue action key call) call state := by
  obtain ⟨hresult, hafter⟩ := mirrors_issue action key call state
  have hreport := Call.gives_report event state
  exact ⟨(hreport.result_bind _).trans hresult, (hreport.after_bind _).trans hafter⟩

theorem tickers_report_issue (event : Event) :
    Call.tickers Event.ticker? (report event >>= fun _ => issue action key call) state =
      event.ticker?.toList := by
  rw [(Call.gives_report event state).tickers_bind, Call.tickers_report, tickers_issue,
    List.append_nil]

end

section

variable (counters : Counters σ) (key : Bytes) (state : σ)

/-- What the engine gives for a counter is read as the answer says, and nothing else happens. -/
theorem decode_gives (stored : Option Bytes) :
    (counters.decode key stored).result state = counters.answer key (.ok stored) ∧
      (counters.decode key stored).after state = state ∧
      (counters.decode key stored).tickers Event.ticker? state = [] := by
  cases stored with
  | none => exact ⟨rfl, rfl, rfl⟩
  | some bytes =>
    rw [decode, answer]
    by_cases hsize : bytes.length = Counter.size
    · rw [Counter.decode?_of_length hsize, if_pos hsize]
      exact ⟨rfl, rfl, rfl⟩
    · rw [Counter.decode?_of_length_ne hsize, if_neg hsize]
      exact ⟨rfl, rfl, rfl⟩

/-- A counter reads as the engine's answer says, and to read it leaves what the engine leaves and
counts one read. -/
theorem get_gives :
    (counters.get key).result state =
        counters.answer key ((counters.engine.get key).result state) ∧
      (counters.get key).after state = (counters.engine.get key).after state ∧
      (counters.get key).tickers Event.ticker? state = [.counterRead] := by
  obtain ⟨hresult, hafter⟩ := mirrors_issue .get key (counters.engine.get key) state
  have hquiet := tickers_issue .get key (counters.engine.get key) state
  have hreport := Call.gives_report (Event.reading key) state
  have hfirst : (report (Event.reading key) : Call Event σ Unit).tickers Event.ticker? state =
      [.counterRead] := Call.tickers_report _ state
  rw [Counters.get, hreport.result_bind, hreport.after_bind, hreport.tickers_bind, hfirst]
  cases hget : (counters.engine.get key).result state with
  | error failure =>
    -- a failed call on the engine reports no counter and is passed on
    rw [hget] at hresult
    rw [Call.result_bind_of_error hresult, Call.after_bind_of_error hresult, hafter,
      Call.tickers_bind_of_error hresult, hquiet]
    exact ⟨rfl, rfl, rfl⟩
  | ok stored =>
    -- what the engine gives is read without a further call
    rw [hget] at hresult
    have hgives : (issue .get key (counters.engine.get key)).Gives state stored
        ((counters.engine.get key).after state) := ⟨hresult, hafter⟩
    obtain ⟨hanswer, hstays, hnothing⟩ :=
      counters.decode_gives key ((counters.engine.get key).after state) stored
    rw [hgives.result_bind, hgives.after_bind, hgives.tickers_bind, hquiet, hanswer, hstays,
      hnothing]
    exact ⟨rfl, rfl, rfl⟩

/-- Counters pass on what any engine does. -/
theorem passesOn : counters.PassesOn key state where
  set value := mirrors_report .set key _ state (.writing key)
  remove := mirrors_report .remove key _ state (.writing key)
  get := (counters.get_gives key state).1
  reads := (counters.get_gives key state).2.1
  merge hmerge delta := by
    rw [Counters.add, hmerge]
    exact mirrors_report .add key _ state (.writing key)
  unread hreads delta failure hfails := by
    -- a read that fails ends the add, and no write is reported
    obtain ⟨-, hafter, -⟩ := counters.get_gives key state
    rw [Counters.add, hreads]
    refine ⟨Call.result_bind_of_error hfails _, ?_, ?_⟩
    · rw [Call.after_bind_of_error hfails, hafter]
    · rw [Call.events, Call.outcome_bind, hfails]
  written hreads delta value hvalue := by
    -- the write goes on from where the read has left the engine
    obtain ⟨-, hafter, -⟩ := counters.get_gives key state
    have hgives : (counters.get key).Gives state value ((counters.engine.get key).after state) :=
      ⟨hvalue, hafter⟩
    have hput := mirrors_report .set key (counters.engine.put key (Counter.encode (value + delta)))
      ((counters.engine.get key).after state) (.writing key)
    rw [Counters.add, hreads]
    exact ⟨(hgives.result_bind _).trans hput.1, (hgives.after_bind _).trans hput.2⟩

end

/-! ### Sequences of calls -/

/-- A call of the counters. -/
inductive Request where
  /-- A counter is given a value. -/
  | set (key : Bytes) (value : UInt64)
  /-- A counter is read. -/
  | get (key : Bytes)
  /-- A counter is removed. -/
  | remove (key : Bytes)
  /-- A counter is added to. -/
  | add (key : Bytes) (delta : UInt64)
  deriving DecidableEq, Repr

namespace Request

/-- The call, whatever its value is. -/
def call (counters : Counters σ) : Request → Call Event σ Unit
  | set key value => counters.set key value
  | get key => counters.get key >>= fun _ => pure ()
  | remove key => counters.remove key
  | add key delta => counters.add key delta

/-- The counter is read: by a read, or by an addition that reads first. -/
def Reads (strategy : Strategy) : Request → Prop
  | get _ => True
  | add _ _ => strategy = .readModifyWrite
  | set _ _ | remove _ => False

instance (strategy : Strategy) : DecidablePred (Reads strategy)
  | get _ => isTrue trivial
  | add _ _ => inferInstanceAs (Decidable (strategy = .readModifyWrite))
  | set _ _ | remove _ => isFalse id

/-- The engine gives a counter, or has none. -/
def Found : Except Failure (Option Bytes) → Prop
  | .ok none => True
  | .ok (some bytes) => bytes.length = Counter.size
  | .error _ => False

instance : DecidablePred Found
  | .ok none => isTrue trivial
  | .ok (some bytes) => inferInstanceAs (Decidable (bytes.length = Counter.size))
  | .error _ => isFalse id

/-- Something is written: by a call that sets, removes or merges, and by an addition that reads
first if the engine gives a counter or has none. -/
def Writes (counters : Counters σ) (state : σ) : Request → Prop
  | set _ _ | remove _ => True
  | get _ => False
  | add key _ =>
      counters.strategy = .merge ∨ Found ((counters.engine.get key).result state)

instance (counters : Counters σ) (state : σ) : DecidablePred (Writes counters state)
  | set _ _ | remove _ => isTrue trivial
  | get _ => isFalse id
  | add key _ => inferInstanceAs
      (Decidable (counters.strategy = .merge ∨ Found ((counters.engine.get key).result state)))

end Request

/-- Makes calls one after the other.  One that fails does not keep the next from being made. -/
def serve (counters : Counters σ) (requests : List Request) : Call Event σ Unit :=
  requests.forM fun request => (request.call counters).caught >>= fun _ => pure ()

/-- How many calls of a sequence write something. -/
def writes (counters : Counters σ) : List Request → σ → Nat
  | [], _ => 0
  | request :: rest, state =>
      (if request.Writes counters state then 1 else 0) +
        counters.writes rest ((request.call counters).after state)

/-- A counter can be read if the engine gives one or has none. -/
theorem exists_answer_iff (counters : Counters σ) (key : Bytes)
    (given : Except Failure (Option Bytes)) :
    (∃ value, counters.answer key given = .ok value) ↔ Request.Found given := by
  rcases given with failure | _ | bytes
  · simp [answer, Request.Found]
  · simp [answer, Request.Found]
  · by_cases hsize : bytes.length = Counter.size
    · simp [answer, Request.Found, hsize]
    · simp [answer, Request.Found, hsize]

/-- A request counts a read if it reads, and then a write if it writes. -/
theorem Request.tickers_call (counters : Counters σ) (request : Request) (state : σ) :
    (request.call counters).tickers Event.ticker? state =
      (if request.Reads counters.strategy then [.counterRead] else []) ++
        if request.Writes counters state then [.counterWrite] else [] := by
  cases request with
  | set key value => exact tickers_report_issue .set key _ state (.writing key)
  | remove key => exact tickers_report_issue .remove key _ state (.writing key)
  | get key =>
    rw [call, Call.tickers_bind_pure]
    exact (counters.get_gives key state).2.2
  | add key delta =>
    show (counters.add key delta).tickers Event.ticker? state =
      (if counters.strategy = .readModifyWrite then [.counterRead] else []) ++
        if counters.strategy = .merge ∨ Found ((counters.engine.get key).result state)
        then [.counterWrite] else []
    rw [Counters.add]
    cases counters.strategy with
    | merge =>
      rw [if_neg (by decide), if_pos (.inl rfl)]
      exact tickers_report_issue .add key _ state (.writing key)
    | readModifyWrite =>
      obtain ⟨hanswer, hafter, hread⟩ := counters.get_gives key state
      rw [if_pos rfl]
      cases hresult : (counters.get key).result state with
      | error failure =>
        -- what cannot be read is not written
        have hnone : ¬Found ((counters.engine.get key).result state) := by
          rw [← counters.exists_answer_iff key, ← hanswer, hresult]
          rintro ⟨value, hvalue⟩
          cases hvalue
        rw [if_neg (by simp [hnone])]
        exact (Call.tickers_bind_of_error hresult _).trans hread
      | ok value =>
        have hfound : Found ((counters.engine.get key).result state) := by
          rw [← counters.exists_answer_iff key, ← hanswer]
          exact ⟨value, hresult⟩
        have hgives : (counters.get key).Gives state value ((counters.get key).after state) :=
          ⟨hresult, rfl⟩
        have hwrite : (counters.set key (value + delta)).tickers Event.ticker?
            ((counters.get key).after state) = [.counterWrite] :=
          tickers_report_issue .set key _ _ (.writing key)
        rw [if_pos (.inr hfound)]
        refine (hgives.tickers_bind _).trans ?_
        rw [hread, hwrite]

/-- In a sequence the tickers of a request are followed by those of the rest, in the state that the
request left, whether it failed or not. -/
theorem tickers_serve_cons (counters : Counters σ) (request : Request) (rest : List Request)
    (state : σ) :
    (counters.serve (request :: rest)).tickers Event.ticker? state =
      (request.call counters).tickers Event.ticker? state ++
        (counters.serve rest).tickers Event.ticker? ((request.call counters).after state) := by
  let attempt : Call Event σ Unit := (request.call counters).caught >>= fun _ => pure ()
  have hattempt : attempt.Gives state () ((request.call counters).after state) :=
    (Call.gives_caught (request.call counters) state).bind (Call.gives_pure () _)
  have htickers : attempt.tickers Event.ticker? state =
      (request.call counters).tickers Event.ticker? state := by
    rw [Call.tickers_bind_pure, Call.tickers_caught]
  refine (hattempt.tickers_bind fun _ => counters.serve rest).trans ?_
  rw [htickers]

/-- A sequence counts a read for each call that reads, and a write for each that writes. -/
theorem count_tickers_serve (counters : Counters σ) (requests : List Request) (state : σ) :
    ((counters.serve requests).tickers Event.ticker? state).count .counterRead =
        requests.countP (·.Reads counters.strategy) ∧
      ((counters.serve requests).tickers Event.ticker? state).count .counterWrite =
        counters.writes requests state := by
  induction requests generalizing state with
  | nil => exact ⟨rfl, rfl⟩
  | cons request rest ih =>
    obtain ⟨hreads, hwrites⟩ := ih ((request.call counters).after state)
    rw [tickers_serve_cons, Request.tickers_call]
    constructor
    · -- whether a request reads and whether it writes are independent questions
      rw [List.count_append, List.count_append, hreads, List.countP_cons]
      by_cases hread : request.Reads counters.strategy <;>
        by_cases hwrite : request.Writes counters state <;>
        simp [hread, hwrite, Nat.add_comm]
    · rw [List.count_append, List.count_append, hwrites, writes]
      by_cases hread : request.Reads counters.strategy <;>
        by_cases hwrite : request.Writes counters state <;>
        simp [hread, hwrite]

/-- Only the facade itself counts reads and writes of counters. -/
theorem ticker?_eq_some_iff {meter : Meter} (hmeter : meter.counters) {ticker : Ticker}
    (hticker : ticker = .counterRead ∨ ticker = .counterWrite) (event : Event) :
    event.ticker? = some ticker ↔ meter.ticker? event = some ticker := by
  cases event with
  | engine event =>
    -- no event of the engine raises a ticker of the counters
    have hengine : meter.ticker? (.engine event) ≠ some ticker := by
      show (if meter.engine then event.ticker? else none) ≠ some ticker
      rcases hticker with rfl | rfl
      all_goals
        split
        · cases event with
          | operator event => cases event <;> exact nofun
          | _ => exact nofun
        · exact nofun
    exact ⟨nofun, fun h => absurd h hengine⟩
  | _ =>
    show _ ↔ (if meter.counters then Event.ticker? _ else none) = some ticker
    rw [if_pos hmeter]

/-- Counters on any engine pass on what it gives and how it fails.  An addition that reads first
fails if the read fails or gives bytes that are no counter, and then nothing but the read happens to
the engine.  In a sequence of calls, of which any may fail, a read is counted for each that reads
and for each addition that reads first, and a write for each that sets, removes or merges and for
each addition that found a counter or none, whatever became of them afterwards. -/
theorem passes_on_and_counts (counters : Counters σ) {meter : Meter} (hmeter : meter.counters) :
    (∀ key state, counters.PassesOn key state) ∧
      ∀ requests state,
        meter.Raises (counters.serve requests) state .counterRead
            (requests.countP (·.Reads counters.strategy)) ∧
          meter.Raises (counters.serve requests) state .counterWrite
            (counters.writes requests state) := by
  refine ⟨counters.passesOn, ?_⟩
  intro requests state
  obtain ⟨hreads, hwrites⟩ := counters.count_tickers_serve requests state
  constructor
  · rw [← hreads]
    exact Meter.raises_view fun event _ => ticker?_eq_some_iff hmeter (.inl rfl) event
  · rw [← hwrites]
    exact Meter.raises_view fun event _ => ticker?_eq_some_iff hmeter (.inr rfl) event

/-- An engine without an operator refuses to write one key, holds a single byte for another and an
operand for a third.  Of eight calls five fail: two are refused, three cannot read. -/
theorem passes_on_and_counts_refused :
    let counters : Counters Layered :=
      ⟨Layered.engine.refusing ⟨[.put, .delete], [[2]]⟩, 5, .readModifyWrite⟩
    let engine : Layered :=
      ⟨⟨[([3], [.put [7]]), ([4], [.merge [1]])], []⟩, none, none, 0⟩
    let requests : List Request :=
      [.set [1] 8, .add [1] 3, .add [2] 3, .remove [2], .add [3] 1, .get [3], .add [4] 1, .get [1]]
    let meter : Meter := ⟨false, true⟩
    meter.counters ∧ counters.strategy = .readModifyWrite ∧
      (counters.add [3] 1).result engine = .error (.corruption [3] 1) ∧
      (counters.add [3] 1).after engine = engine ∧
      (counters.add [2] 3).result engine = .error (.engineWrite "disk full") ∧
      meter.Raises (counters.serve requests) engine .counterRead 6 ∧
      meter.Raises (counters.serve requests) engine .counterWrite 4 := by
  intro counters engine requests meter
  have hmeter : meter.counters := rfl
  obtain ⟨hpasses, hcounts⟩ := passes_on_and_counts counters hmeter
  have hmalformed : (counters.get [3]).result engine = .error (.corruption [3] 1) :=
    (hpasses [3] engine).get
  have habsent : (counters.get [2]).result engine = .ok 5 := (hpasses [2] engine).get
  obtain ⟨hcorrupt, hstays, -⟩ := (hpasses [3] engine).unread rfl 1 _ hmalformed
  obtain ⟨hrefused, -⟩ := (hpasses [2] engine).written rfl 3 _ habsent
  have hreads : requests.countP (·.Reads counters.strategy) = 6 := by decide
  -- four writes: the set, the remove and the two adds whose reads succeed
  have hwrites : counters.writes requests engine = 4 := by decide
  obtain ⟨hsix, hfour⟩ := hcounts requests engine
  rw [hreads] at hsix
  rw [hwrites] at hfour
  exact ⟨hmeter, rfl, hcorrupt, hstays, hrefused, hsix, hfour⟩

end Counters
end LazyTally
