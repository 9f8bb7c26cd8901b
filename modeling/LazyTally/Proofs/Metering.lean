import Mathlib.Data.Set.Card
import Mathlib.Data.UInt
import LazyTally.Metrics.Meter

/-!
# What statistics show

Statistics are fed by events, and an event raises one ticker or none.  So all that can be said of
the statistics after a call is said by the list of tickers that its events raise.  That list
follows the way in which the call is put together: the parts of a sequence raise theirs one after
the other.

## Main definitions

* `Traced.tickers`, `Attempt.tickers`, `Call.tickers` — the tickers that the events raise.
* `Meter.Raises` — in the statistics a call raises a ticker by a number.
* `Meter.RaisesForEach` — it does so once for each key of a set.

## Main results

* `Call.Gives.tickers_bind` — what a sequence of two calls raises.
* `Statistics.get_recordAll` — the count of a ticker grows by how often it is listed.
* `count_flatMap_eq_countP`, `encard_eq_countP` — counting the keys for which a ticker is raised.
-/

namespace LazyTally

/-! ### Tickers of computations -/

namespace Traced

variable {ω ω' α β : Type} {view : ω → Option Ticker}

/-- The tickers that the events raise, in order. -/
def tickers (view : ω → Option Ticker) (x : Traced ω α) : List Ticker := x.events.filterMap view

@[simp] theorem tickers_pure (a : α) : (pure a : Traced ω α).tickers view = [] := rfl

@[simp] theorem tickers_bind (x : Traced ω α) (next : α → Traced ω β) :
    (x >>= next).tickers view = x.tickers view ++ (next x.value).tickers view := by
  simp [tickers]

@[simp] theorem tickers_report (event : ω) :
    (report event : Traced ω Unit).tickers view = (view event).toList := by
  show List.filterMap view [event] = _
  cases hview : view event <;> simp [hview]

theorem tickers_relabel (view : ω' → Option Ticker) (f : ω → ω') (x : Traced ω α) :
    (x.relabel f).tickers view = x.tickers fun event => view (f event) := List.filterMap_map

/-- Events of which none raises a ticker. -/
theorem tickers_eq_nil (h : ∀ event, view event = none) (x : Traced ω α) :
    x.tickers view = [] := List.filterMap_eq_nil_iff.mpr fun event _ => h event

end Traced

namespace Attempt

variable {ω α β : Type} {view : ω → Option Ticker}

/-- The tickers that the events raise, in order. -/
def tickers (view : ω → Option Ticker) (x : Attempt ω α) : List Ticker :=
  Traced.tickers view x.run

@[simp] theorem tickers_pure (a : α) : (pure a : Attempt ω α).tickers view = [] := rfl

@[simp] theorem tickers_lift (x : Traced ω α) :
    (liftM x : Attempt ω α).tickers view = x.tickers view := by
  show Traced.tickers view (x >>= fun a => pure (Except.ok a)) = _
  rw [Traced.tickers_bind]
  exact List.append_nil _

@[simp] theorem tickers_report (event : ω) :
    (report event : Attempt ω Unit).tickers view = (view event).toList := by
  show Attempt.tickers view (liftM (report event : Traced ω Unit)) = _
  simp

/-- The second attempt raises its tickers after those of the first, which succeeds. -/
theorem tickers_bind_of_ok {x : Attempt ω α} {a : α} (h : x.result = .ok a)
    (next : α → Attempt ω β) :
    (x >>= next).tickers view = x.tickers view ++ (next a).tickers view := by
  show Traced.tickers view (x.run >>= ExceptT.bindCont next) = _
  have hvalue : x.run.value = .ok a := h
  rw [Traced.tickers_bind, hvalue]
  rfl

@[simp] theorem tickers_map (f : α → β) (x : Attempt ω α) :
    (f <$> x).tickers view = x.tickers view := by
  rw [map_eq_pure_bind]
  show Traced.tickers view (x.run >>= ExceptT.bindCont fun a => pure (f a)) = _
  rw [Traced.tickers_bind]
  cases x.run.value <;> exact List.append_nil _

/-- Attempts that all succeed raise their tickers one after the other. -/
theorem tickers_mapM {f : α → Attempt ω β} {l : List α}
    (h : ∀ a ∈ l, ∃ b, (f a).result = .ok b) :
    (l.mapM f).tickers view = l.flatMap fun a => (f a).tickers view := by
  induction l with
  | nil => rfl
  | cons a l ih =>
    obtain ⟨⟨b, hb⟩, hrest⟩ := List.forall_mem_cons.mp h
    have hall : ∃ bs, (l.mapM f).result = .ok bs := by
      have hvalues : Nonempty β := ⟨b⟩
      choose! g hg using hrest
      exact ⟨l.map g, result_mapM hg⟩
    obtain ⟨bs, hbs⟩ := hall
    rw [List.mapM_cons, tickers_bind_of_ok hb, tickers_bind_of_ok hbs, ih hrest,
      List.flatMap_cons, tickers_pure, List.append_nil]

end Attempt

namespace Call

variable {ω ω' σ α β : Type} {view : ω → Option Ticker} {state middle : σ}

/-- The tickers that the events raise, in order. -/
def tickers (view : ω → Option Ticker) (call : Call ω σ α) (state : σ) : List Ticker :=
  (call.outcome state).tickers view

@[simp] theorem tickers_pure (a : α) (state : σ) :
    (pure a : Call ω σ α).tickers view state = [] := rfl

@[simp] theorem tickers_set (new state : σ) :
    (set new : Call ω σ PUnit).tickers view state = [] := rfl

@[simp] theorem tickers_report (event : ω) (state : σ) :
    (report event : Call ω σ Unit).tickers view state = (view event).toList := by
  rw [tickers, outcome_report]
  exact Traced.tickers_report event

@[simp] theorem tickers_inspect (attempt : σ → Attempt ω α) (state : σ) :
    (inspect attempt).tickers view state = (attempt state).tickers view := by
  show Traced.tickers view ((attempt state).run >>= fun result => pure (result, state)) = _
  rw [Traced.tickers_bind]
  exact List.append_nil _

@[simp] theorem tickers_lift (attempt : Attempt ω α) (state : σ) :
    (liftM attempt : Call ω σ α).tickers view state = attempt.tickers view :=
  tickers_inspect (fun _ => attempt) state

theorem tickers_relabel (view : ω' → Option Ticker) (f : ω → ω') (call : Call ω σ α)
    (state : σ) :
    (call.relabel f).tickers view state = call.tickers (fun event => view (f event)) state :=
  Traced.tickers_relabel view f (call.outcome state)

@[simp] theorem tickers_caught (call : Call ω σ α) (state : σ) :
    call.caught.tickers view state = call.tickers view state := by
  rw [tickers, outcome_caught]
  rfl

/-- The second call raises its tickers after those of the first, from what that left. -/
theorem Gives.tickers_bind {call : Call ω σ α} {a : α} (h : call.Gives state a middle)
    (next : α → Call ω σ β) :
    (call >>= next).tickers view state =
      call.tickers view state ++ (next a).tickers view middle := by
  obtain ⟨hresult, rfl⟩ := h
  rw [tickers, outcome_bind, hresult]
  exact List.filterMap_append

/-- A call that fails ends a sequence, and only its own tickers are raised. -/
theorem tickers_bind_of_error {call : Call ω σ α} {failure : Failure}
    (h : call.result state = .error failure) (next : α → Call ω σ β) :
    (call >>= next).tickers view state = call.tickers view state := by
  rw [tickers, outcome_bind, h]
  rfl

theorem tickers_bind_pure (call : Call ω σ α) (f : α → β) (state : σ) :
    (call >>= fun a => pure (f a)).tickers view state = call.tickers view state := by
  cases hresult : call.result state with
  | error failure => exact tickers_bind_of_error hresult _
  | ok a =>
    have hgives : call.Gives state a (call.after state) := ⟨hresult, rfl⟩
    rw [hgives.tickers_bind, tickers_pure, List.append_nil]

/-- A call that reads the state first raises what it raises on that state. -/
theorem tickers_get_bind (next : σ → Call ω σ β) (state : σ) :
    (get >>= next).tickers view state = (next state).tickers view state := by
  rw [(gives_get state).tickers_bind next]
  rfl

end Call

/-! ### Statistics -/

/-- The count of a ticker grows by how often it is listed, wrapping at 2^64. -/
theorem Statistics.get_recordAll (statistics : Statistics) (tickers : List Ticker)
    (ticker : Ticker) :
    (statistics.recordAll tickers).get ticker =
      statistics.get ticker + UInt64.ofNat (tickers.count ticker) := by
  induction tickers generalizing statistics with
  | nil => exact (UInt64.add_zero _).symm
  | cons first rest ih =>
    show ((statistics.record first 1).recordAll rest).get ticker = _
    rw [ih, get_record, List.count_cons]
    by_cases hfirst : first = ticker
    · simp only [hfirst, if_true, beq_self_eq_true, UInt64.ofNat_add, UInt64.add_assoc]
      rw [UInt64.add_comm 1]
      rfl
    · simp [hfirst]

namespace Meter

variable {σ α : Type} {meter : Meter} {call : Call Counters.Event σ α} {state : σ}
  {ticker : Ticker}

/-- In the statistics that the meter feeds, the call raises the ticker by the number, wrapping at
2^64. -/
def Raises (meter : Meter) (call : Call Counters.Event σ α) (state : σ) (ticker : Ticker)
    (number : Nat) : Prop :=
  ∀ statistics : Statistics,
    (statistics.recordAll (meter.tickers (call.events state))).get ticker =
      statistics.get ticker + UInt64.ofNat number

/-- The call raises the ticker once for each of the keys, of which there are only so many. -/
def RaisesForEach (meter : Meter) (call : Call Counters.Event σ α) (state : σ)
    (ticker : Ticker) (keys : Set Bytes) : Prop :=
  ∃ number : Nat, keys.encard = number ∧ meter.Raises call state ticker number

/-- If it is known how many keys there are, it is known how often the ticker is raised. -/
theorem RaisesForEach.raises {keys : Set Bytes} (h : meter.RaisesForEach call state ticker keys)
    {number : Nat} (hkeys : keys.encard = number) : meter.Raises call state ticker number := by
  obtain ⟨count, hcount, hraises⟩ := h
  obtain rfl : count = number := Nat.cast_injective (hcount.symm.trans hkeys)
  exact hraises

/-- A call raises a ticker as often as its events do, in any view that shows that ticker as the
meter does. -/
theorem raises_view {view : Counters.Event → Option Ticker}
    (h : ∀ event ∈ call.events state,
      view event = some ticker ↔ meter.ticker? event = some ticker) :
    meter.Raises call state ticker ((call.tickers view state).count ticker) := by
  have hcount : ((call.events state).filterMap view).count ticker =
      ((call.events state).filterMap meter.ticker?).count ticker := by
    rw [List.count_filterMap, List.count_filterMap]
    refine List.countP_congr ?_
    intro event hmem
    rw [beq_iff_eq, beq_iff_eq]
    exact h event hmem
  intro statistics
  show _ = _ + UInt64.ofNat (((call.events state).filterMap view).count ticker)
  rw [hcount]
  exact statistics.get_recordAll _ ticker

end Meter

/-! ### Counting keys -/

/-- If each item brings a ticker once or not at all, all of them bring it as often as there are
items that do. -/
theorem count_flatMap_eq_countP {α : Type} {items : List α} {f : α → List Ticker}
    {ticker : Ticker} {p : α → Prop} [DecidablePred p]
    (h : ∀ a ∈ items, (f a).count ticker = if p a then 1 else 0) :
    (items.flatMap f).count ticker = items.countP p := by
  induction items with
  | nil => rfl
  | cons a items ih =>
    obtain ⟨hfirst, hrest⟩ := List.forall_mem_cons.mp h
    rw [List.flatMap_cons, List.count_append, ih hrest, hfirst, List.countP_cons, Nat.add_comm]
    simp

/-- The size of a set of keys of a list without repetitions. -/
theorem encard_eq_countP {keys : List Bytes} (hkeys : keys.Pairwise (· < ·)) {p : Bytes → Prop}
    [DecidablePred p] {set : Set Bytes} (h : ∀ key, key ∈ set ↔ key ∈ keys ∧ p key) :
    set.encard = keys.countP p := by
  have hnodup : keys.Nodup := by
    refine hkeys.imp ?_
    intro key other hlt heq
    exact List.lt_irrefl key (heq ▸ hlt)
  have hset : set = ((keys.filter p).toFinset : Set Bytes) := by
    ext key
    simp [h key]
  rw [hset, Set.encard_coe_eq_coe_finsetCard, List.toFinset_card_of_nodup (hnodup.filter _),
    List.countP_eq_length_filter]

end LazyTally
