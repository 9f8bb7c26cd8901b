import LazyTally.Metrics.Sink
import LazyTally.Proofs.Metering

/-!
# Computations with a sink follow those without

The parts of a store exist in two forms: with a sink, as they run, and without one, as everything
else in this library is said of them.  The first form follows the second: from the same state, and
whatever was counted before, it has the same answer or failure, leaves the same state and reports
the same events, and in the statistics it has raised the tickers of these events, once each.  There
is one rule for each way in which a computation is put together.  What is counted may not be known
to what comes next, so the rules hold for every sequence only because nothing reads the statistics.

## Main definitions

* `Sink.ticker?` — the ticker that an event raises for a part with the sink, or without one.
* `Counting.Follows`, `Attempt.Follows` — a computation that can reach statistics follows one that
  cannot.
* `Call.Answers` — what a call on a state beside statistics gives, whatever was counted before.
* `Call.Follows` — such a call follows a call on a state alone.
* `Call.Agree` — two such calls have the same answer, and each counts for itself.

## Main results

* `Counting.Follows.bind`, `Attempt.Follows.bind`, `Call.Follows.bind` — sequences.
* `Counting.Follows.counted`, `Attempt.Follows.counted`, `Call.Follows.counted` — an event that is
  counted after it is reported.
* `Attempt.Follows.mapM`, `Call.follows_mapM`, `Call.follows_forM` — loops.
* `Call.Follows.agree` — calls agree that follow the same call.
-/

namespace LazyTally

/-- The ticker that an event raises for a part with the sink, or for one without. -/
def Sink.ticker? {ω : Type} (sink : Option Sink) (ticker? : ω → Option Ticker) (event : ω) :
    Option Ticker := if sink.isSome then ticker? event else none

theorem Sink.ticker?_eq_none {ω : Type} {sink : Option Sink} {ticker? : ω → Option Ticker}
    {event : ω} (h : ticker? event = none) : Sink.ticker? sink ticker? event = none := by
  unfold Sink.ticker?
  rw [h]
  split <;> rfl

theorem Statistics.recordAll_append (statistics : Statistics) (tickers more : List Ticker) :
    statistics.recordAll (tickers ++ more) = (statistics.recordAll tickers).recordAll more :=
  List.foldl_append

namespace Counting

variable {ω ω' α β : Type} {view : ω → Option Ticker} {x : Counting ω α} {plain : Traced ω α}

/-- Whatever was counted before, the computation does what the plain one does, and counts what its
events raise. -/
def Follows (view : ω → Option Ticker) (x : Counting ω α) (plain : Traced ω α) : Prop :=
  ∀ statistics : Statistics, x.run statistics =
    ⟨(plain.value, statistics.recordAll (plain.tickers view)), plain.events⟩

theorem follows_pure (a : α) : Follows view (pure a) (pure a) := fun _ => rfl

/-- The second computation goes on with what the first has counted. -/
theorem Follows.bind (hx : Follows view x plain) {next : α → Counting ω β}
    {plainNext : α → Traced ω β} (hnext : ∀ a, Follows view (next a) (plainNext a)) :
    Follows view (x >>= next) (plain >>= plainNext) := by
  intro statistics
  have hrest := hnext plain.value (statistics.recordAll (plain.tickers view))
  show (x.run statistics >>= fun seen => (next seen.1).run seen.2) = _
  rw [hx statistics, Traced.tickers_bind, Statistics.recordAll_append]
  show Traced.mk _ (plain.events ++ ((next plain.value).run _).events) = _
  dsimp only
  rw [hrest]
  rfl

/-- An event that raises no ticker is only reported. -/
theorem follows_report {event : ω} (h : view event = none) :
    Follows view (report event) (report event) := by
  intro statistics
  rw [Traced.tickers_report, h]
  rfl

/-- An event that is counted where it is reported. -/
theorem follows_counted {sink : Option Sink} {event : ω} {ticker : Ticker}
    (h : view event = if sink.isSome then some ticker else none) :
    Follows view (do report event; record sink ticker 1) (report event) := by
  intro statistics
  rw [Traced.tickers_report, h]
  cases sink <;> rfl

/-- What follows a counted event goes on after it was counted. -/
theorem Follows.counted {sink : Option Sink} {event : ω} {ticker : Ticker}
    {next : Counting ω α} {plainNext : Traced ω α}
    (h : view event = if sink.isSome then some ticker else none)
    (hnext : Follows view next plainNext) :
    Follows view (do report event; record sink ticker 1; next)
      (do report event; plainNext) := by
  have hcounted := (follows_counted h).bind fun _ => hnext
  rw [bind_assoc] at hcounted
  exact hcounted

/-- The events may be seen as those of another layer. -/
theorem Follows.relabel {view : ω' → Option Ticker} {f : ω → ω'}
    (hx : Follows (fun event => view (f event)) x plain) :
    Follows view (x.relabel f) (plain.relabel f) := by
  intro statistics
  show (x.run statistics).relabel f = _
  rw [hx statistics, Traced.tickers_relabel]
  rfl

end Counting

/-! ### Computations that may fail -/

namespace Attempt

variable {ω α β : Type} {view : ω → Option Ticker} {x : Call ω Statistics α} {plain : Attempt ω α}

@[simp] theorem events_map (f : α → β) (x : Attempt ω α) : (f <$> x).events = x.events := by
  rw [map_eq_pure_bind]
  show x.run.events ++ (ExceptT.bindCont (fun a => pure (f a)) x.run.value : Traced ω _).events = _
  cases x.run.value <;> exact List.append_nil _

/-- Whatever was counted before, the computation does what the plain one does, failures included,
and counts what its events raise. -/
def Follows (view : ω → Option Ticker) (x : Call ω Statistics α) (plain : Attempt ω α) : Prop :=
  Counting.Follows view x.run plain.run

theorem follows_pure (a : α) : Follows view (pure a) (pure a) := Counting.follows_pure _

theorem follows_throw (failure : Failure) :
    Follows view (throw failure : Call ω Statistics α) (throw failure) := Counting.follows_pure _

/-- If the first computation fails, the second is not made in either form. -/
theorem Follows.bind (hx : Follows view x plain) {next : α → Call ω Statistics β}
    {plainNext : α → Attempt ω β} (hnext : ∀ a, Follows view (next a) (plainNext a)) :
    Follows view (x >>= next) (plain >>= plainNext) := by
  refine Counting.Follows.bind hx fun result => ?_
  cases result with
  | ok a => exact hnext a
  | error failure => exact Counting.follows_pure _

theorem Follows.map (f : α → β) (hx : Follows view x plain) :
    Follows view (f <$> x) (f <$> plain) := by
  rw [map_eq_pure_bind, map_eq_pure_bind]
  exact hx.bind fun a => follows_pure (f a)

/-- A computation that cannot fail is made as one that may. -/
theorem follows_lift {x : Counting ω α} {plain : Traced ω α} (hx : Counting.Follows view x plain) :
    Follows view (liftM x) (liftM plain) := by
  show Counting.Follows view (Except.ok <$> x) (plain >>= fun a => pure (Except.ok a))
  rw [map_eq_pure_bind]
  exact hx.bind fun a => Counting.follows_pure _

theorem follows_report {event : ω} (h : view event = none) :
    Follows view (report event) (report event) := follows_lift (Counting.follows_report h)

/-- What follows a counted event goes on after it was counted. -/
theorem Follows.counted {sink : Option Sink} {event : ω} {ticker : Ticker}
    {next : Call ω Statistics α} {plainNext : Attempt ω α}
    (h : view event = if sink.isSome then some ticker else none)
    (hnext : Follows view next plainNext) :
    Follows view (do report event; record sink ticker 1; next)
      (do report event; plainNext) := by
  have hevent : Follows view (do report event; record sink ticker 1) (report event) := by
    have htickers : (report event : Attempt ω Unit).run.tickers view = (view event).toList :=
      tickers_report event
    intro statistics
    rw [htickers, h]
    cases sink <;> rfl
  -- the sequence of the three is that of the first two and the rest
  have hcounted := hevent.bind fun _ => hnext
  rw [bind_assoc] at hcounted
  exact hcounted

/-- A loop follows if each of its rounds does. -/
theorem Follows.mapM {f : α → Call ω Statistics β} {plain : α → Attempt ω β} {l : List α}
    (h : ∀ a ∈ l, Follows view (f a) (plain a)) : Follows view (l.mapM f) (l.mapM plain) := by
  induction l with
  | nil => exact follows_pure []
  | cons a l ih =>
    obtain ⟨hfirst, hrest⟩ := List.forall_mem_cons.mp h
    rw [List.mapM_cons, List.mapM_cons]
    exact hfirst.bind fun b => (ih hrest).bind fun bs => follows_pure (b :: bs)

end Attempt

/-! ### Calls on a state -/

namespace Call

variable {ω ω' τ σ α β : Type} {view : ω → Option Ticker} {embed : τ → σ} {state middle : τ}

theorem outcome_bind_of_ok {call : Call ω σ α} {next : α → Call ω σ β} {state middle : σ} {a : α}
    {events more : List ω} {seen : Except Failure β × σ}
    (h : call.outcome state = ⟨(.ok a, middle), events⟩)
    (hnext : (next a).outcome middle = ⟨seen, more⟩) :
    (call >>= next).outcome state = ⟨seen, events ++ more⟩ := by
  rw [outcome_bind, result, after, Call.events, h]
  dsimp only
  rw [Call.events, hnext]

theorem outcome_bind_of_error {call : Call ω σ α} (next : α → Call ω σ β) {state middle : σ}
    {failure : Failure} {events : List ω}
    (h : call.outcome state = ⟨(.error failure, middle), events⟩) :
    (call >>= next).outcome state = ⟨(.error failure, middle), events⟩ := by
  rw [outcome_bind, result, after, Call.events, h]

/-- Whatever was counted before, the call has the answer, leaves the state and reports the events,
and it counts what the events raise. -/
def Answers (view : ω → Option Ticker) (x : Call ω (Supplied τ) α) (state : τ)
    (answer : Except Failure α) (after : τ) (events : List ω) : Prop :=
  ∀ statistics : Statistics, x.outcome ⟨state, statistics⟩ =
    ⟨(answer, ⟨after, statistics.recordAll (events.filterMap view)⟩), events⟩

theorem Answers.bind {x : Call ω (Supplied τ) α} {next : α → Call ω (Supplied τ) β} {a : α}
    {events more : List ω} {answer : Except Failure β} {after : τ}
    (hx : x.Answers view state (.ok a) middle events)
    (hnext : (next a).Answers view middle answer after more) :
    (x >>= next).Answers view state answer after (events ++ more) := by
  intro statistics
  rw [List.filterMap_append, Statistics.recordAll_append]
  exact outcome_bind_of_ok (hx statistics) (hnext _)

theorem Answers.bind_of_error {x : Call ω (Supplied τ) α} (next : α → Call ω (Supplied τ) β)
    {failure : Failure} {events : List ω}
    (hx : x.Answers view state (.error failure) middle events) :
    (x >>= next).Answers view state (.error failure) middle events :=
  fun statistics => outcome_bind_of_error next (hx statistics)

/-- The events may be seen as those of another layer. -/
theorem Answers.relabel {view : ω' → Option Ticker} {f : ω → ω'} {x : Call ω (Supplied τ) α}
    {answer : Except Failure α} {after : τ} {events : List ω}
    (h : x.Answers (fun event => view (f event)) state answer after events) :
    (x.relabel f).Answers view state answer after (events.map f) := by
  intro statistics
  rw [outcome_relabel, h statistics, List.filterMap_map]
  rfl

/-- From the state, the plain call has an answer and reports events and leaves what `after` stands
for, and the call beside statistics does the same. -/
def FollowsTo (view : ω → Option Ticker) (embed : τ → σ) (x : Call ω (Supplied τ) α)
    (plain : Call ω σ α) (state after : τ) : Prop :=
  ∃ answer events, plain.outcome (embed state) = ⟨(answer, embed after), events⟩ ∧
    x.Answers view state answer after events

/-- From the state, the call does what the plain call does, whatever it leaves. -/
def Follows (view : ω → Option Ticker) (embed : τ → σ) (x : Call ω (Supplied τ) α)
    (plain : Call ω σ α) (state : τ) : Prop := ∃ after, x.FollowsTo view embed plain state after

/-- The second call goes on from where the first has ended, in both forms. -/
theorem FollowsTo.bind {x : Call ω (Supplied τ) α} {plain : Call ω σ α}
    (hx : x.FollowsTo view embed plain state middle) {next : α → Call ω (Supplied τ) β}
    {plainNext : α → Call ω σ β}
    (hnext : ∀ a, (next a).Follows view embed (plainNext a) middle) :
    (x >>= next).Follows view embed (plain >>= plainNext) state := by
  obtain ⟨answer, events, hplain, hanswer⟩ := hx
  cases answer with
  | error failure =>
    -- neither form makes the second call
    exact ⟨middle, _, _, outcome_bind_of_error plainNext hplain, hanswer.bind_of_error next⟩
  | ok a =>
    obtain ⟨after, answer, more, hplainNext, hrest⟩ := hnext a
    exact ⟨after, answer, _, outcome_bind_of_ok hplain hplainNext, hanswer.bind hrest⟩

theorem Follows.bind {x : Call ω (Supplied τ) α} {plain : Call ω σ α}
    (hx : x.Follows view embed plain state) {next : α → Call ω (Supplied τ) β}
    {plainNext : α → Call ω σ β}
    (hnext : ∀ a state, (next a).Follows view embed (plainNext a) state) :
    (x >>= next).Follows view embed (plain >>= plainNext) state := by
  obtain ⟨middle, hmiddle⟩ := hx
  exact hmiddle.bind fun a => hnext a middle

theorem followsTo_pure (a : α) :
    (pure a : Call ω (Supplied τ) α).FollowsTo view embed (pure a) state state :=
  ⟨.ok a, [], rfl, fun _ => rfl⟩

theorem followsTo_throw (failure : Failure) :
    (throw failure : Call ω (Supplied τ) α).FollowsTo view embed (throw failure) state state :=
  ⟨.error failure, [], rfl, fun _ => rfl⟩

/-- What is read first is the state that the plain call reads. -/
theorem Follows.read_bind {next : τ → Call ω (Supplied τ) α} {plainNext : σ → Call ω σ α}
    (h : (next state).Follows view embed (plainNext (embed state)) state) :
    (Supplied.read >>= next).Follows view embed (get >>= plainNext) state := by
  obtain ⟨after, answer, events, hplain, hanswer⟩ := h
  exact ⟨after, answer, events, hplain, hanswer⟩

theorem followsTo_modify {f : τ → τ} {g : σ → σ} (h : g (embed state) = embed (f state)) :
    (Supplied.change f : Call ω (Supplied τ) Unit).FollowsTo view embed (modify g) state
      (f state) := by
  refine ⟨.ok (), [], ?_, fun _ => rfl⟩
  rw [← h]
  rfl

theorem followsTo_set {new : τ} {plainNew : σ} (h : plainNew = embed new) :
    (Supplied.change (fun _ => new) : Call ω (Supplied τ) Unit).FollowsTo view embed
      (set plainNew) state new := by
  subst h
  exact ⟨.ok (), [], rfl, fun _ => rfl⟩

/-- An event that raises no ticker is only reported. -/
theorem followsTo_report {event : ω} (h : view event = none) :
    (report event : Call ω (Supplied τ) Unit).FollowsTo view embed (report event) state state := by
  refine ⟨.ok (), [event], rfl, fun statistics => ?_⟩
  rw [List.filterMap_cons_none h]
  rfl

/-- An event that is counted where it is reported. -/
theorem followsTo_counted {sink : Option Sink} {event : ω} {ticker : Ticker}
    (h : view event = if sink.isSome then some ticker else none) :
    (do report event; record sink ticker 1 : Call ω (Supplied τ) Unit).FollowsTo view embed
      (report event) state state := by
  refine ⟨.ok (), [event], rfl, fun statistics => ?_⟩
  cases sink with
  | none => rw [List.filterMap_cons_none h]; rfl
  | some sink => rw [List.filterMap_cons_some h]; rfl

/-- What follows a counted event goes on after it was counted. -/
theorem Follows.counted {sink : Option Sink} {event : ω} {ticker : Ticker}
    {next : Call ω (Supplied τ) α} {plainNext : Call ω σ α}
    (h : view event = if sink.isSome then some ticker else none)
    (hnext : next.Follows view embed plainNext state) :
    (do report event; record sink ticker 1; next : Call ω (Supplied τ) α).Follows view embed
      (do report event; plainNext) state := by
  have hevent : (do report event; record sink ticker 1 : Call ω (Supplied τ) Unit).FollowsTo view
      embed (report event) state state := followsTo_counted h
  have hcounted := hevent.bind fun _ => hnext
  rw [bind_assoc] at hcounted
  exact hcounted

/-- An event may also be counted only after the state has changed. -/
theorem followsTo_counted_after {sink : Option Sink} {event : ω} {ticker : Ticker} {new : τ}
    {plainNew : σ} (h : view event = if sink.isSome then some ticker else none)
    (hnew : plainNew = embed new) :
    (do report event; Supplied.change fun _ => new; record sink ticker 1 :
      Call ω (Supplied τ) Unit).FollowsTo view embed (do report event; set plainNew) state new := by
  subst hnew
  refine ⟨.ok (), [event], rfl, fun statistics => ?_⟩
  cases sink with
  | none => rw [List.filterMap_cons_none h]; rfl
  | some sink => rw [List.filterMap_cons_some h]; rfl

/-- Work on the statistics leaves the state alone. -/
theorem followsTo_inspect (work : τ → Call ω Statistics α) (attempt : σ → Attempt ω α)
    (h : Attempt.Follows view (work state) (attempt (embed state))) :
    (Supplied.inspect work).FollowsTo view embed (inspect attempt) state state := by
  refine ⟨(attempt (embed state)).result, (attempt (embed state)).events, ?_, fun statistics => ?_⟩
  · show Traced.mk _ (_ ++ []) = _
    rw [List.append_nil]
    rfl
  · have hwork : (work state).outcome statistics = _ := h statistics
    show ((work state).outcome statistics >>= fun seen =>
      (pure (seen.1, Supplied.mk state seen.2) : Traced ω (Except Failure α × Supplied τ))) = _
    rw [hwork]
    show Traced.mk _ (_ ++ []) = _
    rw [List.append_nil]
    rfl

theorem followsTo_lift {work : Call ω Statistics α} {attempt : Attempt ω α}
    (h : Attempt.Follows view work attempt) :
    (liftM work : Call ω (Supplied τ) α).FollowsTo view embed (liftM attempt) state state :=
  followsTo_inspect (fun _ => work) (fun _ => attempt) h

theorem Follows.relabel {view : ω' → Option Ticker} {f : ω → ω'} {x : Call ω (Supplied τ) α}
    {plain : Call ω σ α} (h : x.Follows (fun event => view (f event)) embed plain state) :
    (x.relabel f).Follows view embed (plain.relabel f) state := by
  obtain ⟨after, answer, events, hplain, hanswer⟩ := h
  refine ⟨after, answer, events.map f, ?_, hanswer.relabel⟩
  rw [outcome_relabel, hplain]
  rfl

/-- A failure that is held as a value is the same in both forms. -/
theorem Follows.caught {x : Call ω (Supplied τ) α} {plain : Call ω σ α}
    (h : x.Follows view embed plain state) : x.caught.Follows view embed plain.caught state := by
  obtain ⟨after, answer, events, hplain, hanswer⟩ := h
  refine ⟨after, .ok answer, events, ?_, fun statistics => ?_⟩
  · rw [outcome_caught, result, Call.after, Call.events, hplain]
  · rw [outcome_caught, result, Call.after, Call.events, hanswer statistics]

/-- A loop follows if each of its rounds does, from whatever state it is made. -/
theorem follows_forM {f : α → Call ω (Supplied τ) PUnit} {plain : α → Call ω σ PUnit} (l : List α)
    (h : ∀ a state, (f a).Follows view embed (plain a) state) (state : τ) :
    (l.forM f).Follows view embed (l.forM plain) state := by
  induction l generalizing state with
  | nil => exact ⟨state, followsTo_pure ()⟩
  | cons a l ih =>
    exact (h a state).bind fun _ after => ih after

theorem follows_mapM {f : α → Call ω (Supplied τ) β} {plain : α → Call ω σ β} (l : List α)
    (h : ∀ a state, (f a).Follows view embed (plain a) state) (state : τ) :
    (l.mapM f).Follows view embed (l.mapM plain) state := by
  induction l generalizing state with
  | nil => exact ⟨state, followsTo_pure []⟩
  | cons a l ih =>
    rw [List.mapM_cons, List.mapM_cons]
    exact (h a state).bind fun b after => (ih after).bind fun bs last => ⟨last, followsTo_pure _⟩

/-! ### Two calls beside statistics -/

/-- Whatever was counted before in each of two runs, both calls have the same answer or failure,
leave the same state and report the same events, and each counts what these raise in its view. -/
def Agree (view view' : ω → Option Ticker) (x x' : Call ω (Supplied τ) α) (state : τ) : Prop :=
  ∃ answer after events, x.Answers view state answer after events ∧
    x'.Answers view' state answer after events

variable {view' : ω → Option Ticker} {x x' : Call ω (Supplied τ) α}

/-- Two calls agree if they follow the same call, in which no two states look alike. -/
theorem Follows.agree {plain : Call ω σ α} (hembed : Function.Injective embed)
    (h : x.Follows view embed plain state) (h' : x'.Follows view' embed plain state) :
    Agree view view' x x' state := by
  obtain ⟨after, answer, events, hplain, hanswer⟩ := h
  obtain ⟨after', answer', events', hplain', hanswer'⟩ := h'
  have hsame := hplain.symm.trans hplain'
  simp only [Traced.mk.injEq, Prod.mk.injEq] at hsame
  obtain ⟨⟨rfl, hafter⟩, rfl⟩ := hsame
  obtain rfl := hembed hafter
  exact ⟨answer, after, events, hanswer, hanswer'⟩

theorem agree_pure (a : α) : Agree view view' (pure a : Call ω (Supplied τ) α) (pure a) state :=
  ⟨.ok a, state, [], fun _ => rfl, fun _ => rfl⟩

theorem agree_read : Agree view view' (Supplied.read : Call ω (Supplied τ) τ) Supplied.read state :=
  ⟨.ok state, state, [], fun _ => rfl, fun _ => rfl⟩

/-- What is made of an answer is the same in both runs. -/
theorem Agree.bind_pure (h : Agree view view' x x' state) (f : α → β) :
    Agree view view' (x >>= fun a => pure (f a)) (x' >>= fun a => pure (f a)) state := by
  obtain ⟨answer, after, events, hx, hx'⟩ := h
  cases answer with
  | error failure =>
    exact ⟨.error failure, after, events, hx.bind_of_error _, hx'.bind_of_error _⟩
  | ok a =>
    have hpure : ∀ view : ω → Option Ticker,
        (pure (f a) : Call ω (Supplied τ) β).Answers view after (.ok (f a)) after [] :=
      fun _ _ => rfl
    exact ⟨.ok (f a), after, events ++ [], hx.bind (hpure view), hx'.bind (hpure view')⟩

theorem Agree.relabel {view view' : ω' → Option Ticker} {f : ω → ω'}
    (h : Agree (fun event => view (f event)) (fun event => view' (f event)) x x' state) :
    Agree view view' (x.relabel f) (x'.relabel f) state := by
  obtain ⟨answer, after, events, hx, hx'⟩ := h
  exact ⟨answer, after, events.map f, hx.relabel, hx'.relabel⟩

end Call
end LazyTally
