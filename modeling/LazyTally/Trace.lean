import LazyTally.Failure

/-!
# Computations that report what they do

Work on a store is observed from two sides: by what it gives back and by what it
reports on the way.  A report is an event of a type chosen by the layer.  Log
lines are views of events; which of them also reach the shared statistics depends
on the sinks of the parts that report them.

## Main definitions

* `Traced ω` — a value and the events of type `ω` that led to it, oldest first.
* `report` — the computation that reports one event.
* `Attempt ω` — a traced computation that may fail.
* `Call ω σ` — an attempt on a state `σ`; what was changed before a failure
  stays changed.
* `relabel` — the same computation with its events seen as events of another
  layer.
* `Call.Gives` — a call succeeds with a value and leaves a state.

## Main results

* `Call.outcome_bind` — what a sequence of two calls does.
* `Attempt.result_bind_of_ok`, `Call.Gives.bind` — a sequence goes on from where its
  first part succeeded.
-/

namespace LazyTally

/-- A value and the events that led to it, oldest first. -/
structure Traced (ω α : Type) where
  /-- What was computed. -/
  value : α
  /-- What was reported, oldest first. -/
  events : List ω

namespace Traced

variable {ω ω' α β : Type}

instance : Monad (Traced ω) where
  pure a := ⟨a, []⟩
  bind x f :=
    let y := f x.value
    ⟨y.value, x.events ++ y.events⟩

@[simp] theorem value_pure (a : α) : (pure a : Traced ω α).value = a := rfl

@[simp] theorem events_pure (a : α) : (pure a : Traced ω α).events = [] := rfl

@[simp] theorem value_bind (x : Traced ω α) (f : α → Traced ω β) :
    (x >>= f).value = (f x.value).value := rfl

@[simp] theorem events_bind (x : Traced ω α) (f : α → Traced ω β) :
    (x >>= f).events = x.events ++ (f x.value).events := rfl

instance : LawfulMonad (Traced ω) := LawfulMonad.mk' _
  (fun x => by
    show (⟨x.value, x.events ++ []⟩ : Traced ω _) = x
    rw [List.append_nil])
  (fun _ _ => rfl)
  (fun x f g => by
    show (⟨_, (x.events ++ (f x.value).events) ++ _⟩ : Traced ω _) = ⟨_, x.events ++ (_ ++ _)⟩
    rw [List.append_assoc]
    rfl)

/-- The same computation, its events seen through `f`. -/
def relabel (f : ω → ω') (x : Traced ω α) : Traced ω' α := ⟨x.value, x.events.map f⟩

end Traced

/-- Computations that can report events of type `ω`. -/
class Reports (ω : outParam Type) (m : Type → Type) where
  /-- Reports one event. -/
  report : ω → m Unit

export Reports (report)

instance {ω : Type} : Reports ω (Traced ω) where
  report event := ⟨(), [event]⟩

instance {ω ε : Type} {m : Type → Type} [Monad m] [Reports ω m] : Reports ω (ExceptT ε m) where
  report event := ExceptT.lift (report event)

instance {ω σ : Type} {m : Type → Type} [Monad m] [Reports ω m] : Reports ω (StateT σ m) where
  report event := StateT.lift (report event)

/-! ### Failing computations -/

/-- A traced computation that may fail. -/
abbrev Attempt (ω : Type) := ExceptT Failure (Traced ω)

namespace Attempt

variable {ω ω' α : Type}

/-- The value or the failure. -/
def result (attempt : Attempt ω α) : Except Failure α := attempt.run.value

/-- What was reported, oldest first. -/
def events (attempt : Attempt ω α) : List ω := attempt.run.events

end Attempt

/-! ### Calls on a state -/

/-- An attempt on a state.  A failure keeps the state that it arose in. -/
abbrev Call (ω σ : Type) := ExceptT Failure (StateT σ (Traced ω))

namespace Call

variable {ω ω' σ α : Type}

/-- Runs the call: value or failure, state afterwards, and events. -/
def outcome (call : Call ω σ α) (state : σ) : Traced ω (Except Failure α × σ) :=
  call.run.run state

/-- The value or the failure. -/
def result (call : Call ω σ α) (state : σ) : Except Failure α := (call.outcome state).value.1

/-- The state afterwards. -/
def after (call : Call ω σ α) (state : σ) : σ := (call.outcome state).value.2

/-- What was reported, oldest first. -/
def events (call : Call ω σ α) (state : σ) : List ω := (call.outcome state).events

/-- The same call, its events seen through `f`. -/
def relabel (f : ω → ω') (call : Call ω σ α) : Call ω' σ α :=
  ExceptT.mk fun state => (call.outcome state).relabel f

/-- The call with its failure as a value, so that what comes next goes on from it. -/
def caught (call : Call ω σ α) : Call ω σ (Except Failure α) := ExceptT.lift call.run

/-- An attempt that is made on a state and leaves the state alone. -/
def inspect (attempt : σ → Attempt ω α) : Call ω σ α :=
  ExceptT.mk fun state => do
    let result ← (attempt state).run
    pure (result, state)

end Call

/-! ### What a sequence of calls does -/

namespace Call

variable {ω ω' σ α β : Type}

@[simp] theorem outcome_pure (a : α) (state : σ) :
    (pure a : Call ω σ α).outcome state = ⟨(.ok a, state), []⟩ := rfl

@[simp] theorem outcome_throw (failure : Failure) (state : σ) :
    (throw failure : Call ω σ α).outcome state = ⟨(.error failure, state), []⟩ := rfl

/-- A sequence of two calls: the second goes on from where the first succeeded. -/
theorem outcome_bind (call : Call ω σ α) (next : α → Call ω σ β) (state : σ) :
    (call >>= next).outcome state =
      match call.result state with
      | .ok a => ⟨((next a).outcome (call.after state)).value,
          call.events state ++ (next a).events (call.after state)⟩
      | .error failure => ⟨(.error failure, call.after state), call.events state⟩ := by
  -- the claim depends on the first call only through its outcome
  suffices h : ∀ first : Traced ω (Except Failure α × σ),
      (first >>= fun run => ExceptT.bindCont next run.1 run.2) =
        match first.value.1 with
        | .ok a => ⟨((next a).outcome first.value.2).value,
            first.events ++ (next a).events first.value.2⟩
        | .error failure => ⟨(.error failure, first.value.2), first.events⟩ from
    h (call.outcome state)
  rintro ⟨⟨_ | a, after⟩, events⟩
  · exact congrArg (Traced.mk _) (List.append_nil events)
  · rfl

@[simp] theorem outcome_report (event : ω) (state : σ) :
    (report event : Call ω σ Unit).outcome state = ⟨(.ok (), state), [event]⟩ := rfl

@[simp] theorem outcome_caught (call : Call ω σ α) (state : σ) :
    call.caught.outcome state =
      ⟨(.ok (call.result state), call.after state), call.events state⟩ := by
  show Traced.mk _ (_ ++ []) = _
  rw [List.append_nil]
  rfl

@[simp] theorem outcome_relabel (f : ω → ω') (call : Call ω σ α) (state : σ) :
    (call.relabel f).outcome state = (call.outcome state).relabel f := rfl

end Call

instance {ω σ : Type} : MonadLift (Attempt ω) (Call ω σ) where
  monadLift attempt := Call.inspect fun _ => attempt

/-! ### Results of attempts -/

namespace Attempt

variable {ω α β : Type}

@[simp] theorem result_lift (x : Traced ω α) : (liftM x : Attempt ω α).result = .ok x.value := rfl

/-- The second attempt is made if the first succeeds. -/
theorem result_bind (x : Attempt ω α) (next : α → Attempt ω β) :
    (x >>= next).result = x.result >>= fun a => (next a).result := by
  show (ExceptT.bindCont next x.run.value).value = _
  rw [result]
  cases x.run.value <;> rfl

theorem result_bind_of_ok {x : Attempt ω α} {a : α} (h : x.result = .ok a)
    (next : α → Attempt ω β) : (x >>= next).result = (next a).result := by
  rw [result_bind, h]
  rfl

/-- The second attempt is not made if the first fails. -/
theorem result_bind_of_error {x : Attempt ω α} {failure : Failure} (h : x.result = .error failure)
    (next : α → Attempt ω β) : (x >>= next).result = .error failure := by
  rw [result_bind, h]
  rfl

@[simp] theorem result_map (f : α → β) (x : Attempt ω α) :
    (f <$> x).result = f <$> x.result := by
  rw [map_eq_pure_bind, result_bind]
  cases x.result <;> rfl

/-- Attempts that all succeed give a list of their values. -/
theorem result_mapM {f : α → Attempt ω β} {g : α → β} {l : List α}
    (h : ∀ a ∈ l, (f a).result = .ok (g a)) : (l.mapM f).result = .ok (l.map g) := by
  induction l with
  | nil => rfl
  | cons a l ih =>
    have htail := ih fun b hb => h b (List.mem_cons_of_mem a hb)
    rw [List.mapM_cons, result_bind_of_ok (h a List.mem_cons_self), result_bind_of_ok htail]
    rfl

/-- The first attempt that fails ends a list of attempts with its failure. -/
theorem result_mapM_of_error {f : α → Attempt ω β} {before after : List α} {a : α}
    {failure : Failure} (hbefore : ∀ b ∈ before, ∃ value, (f b).result = .ok value)
    (h : (f a).result = .error failure) :
    ((before ++ a :: after).mapM f).result = .error failure := by
  induction before with
  | nil =>
    rw [List.nil_append, List.mapM_cons, result_bind_of_error h]
  | cons b before ih =>
    obtain ⟨⟨value, hvalue⟩, hrest⟩ := List.forall_mem_cons.mp hbefore
    rw [List.cons_append, List.mapM_cons, result_bind_of_ok hvalue,
      result_bind_of_error (ih hrest)]

end Attempt

/-! ### Calls that succeed -/

namespace Call

variable {ω ω' σ α β : Type}

/-- The call succeeds with a value and leaves a state. -/
def Gives (call : Call ω σ α) (state : σ) (a : α) (after : σ) : Prop :=
  call.result state = .ok a ∧ call.after state = after

theorem gives_pure (a : α) (state : σ) : (pure a : Call ω σ α).Gives state a state := ⟨rfl, rfl⟩

theorem gives_report (event : ω) (state : σ) :
    (report event : Call ω σ Unit).Gives state () state := ⟨rfl, rfl⟩

theorem gives_get (state : σ) : (get : Call ω σ σ).Gives state state state := ⟨rfl, rfl⟩

theorem gives_set (new state : σ) : (set new : Call ω σ PUnit).Gives state () new := ⟨rfl, rfl⟩

theorem gives_modify (f : σ → σ) (state : σ) :
    (modify f : Call ω σ PUnit).Gives state () (f state) := ⟨rfl, rfl⟩

theorem gives_lift {attempt : Attempt ω α} {a : α} (h : attempt.result = .ok a) (state : σ) :
    (liftM attempt : Call ω σ α).Gives state a state := ⟨h, rfl⟩

theorem Gives.caught {call : Call ω σ α} {state after : σ} {a : α}
    (h : call.Gives state a after) : call.caught.Gives state (.ok a) after :=
  ⟨congrArg Except.ok h.1, h.2⟩

theorem Gives.relabel {call : Call ω σ α} {state after : σ} {a : α}
    (h : call.Gives state a after) (f : ω → ω') : (call.relabel f).Gives state a after := h

/-- A call with its failure as a value always succeeds. -/
theorem gives_caught (call : Call ω σ α) (state : σ) :
    call.caught.Gives state (call.result state) (call.after state) := by
  constructor
  · rw [result, outcome_caught]
  · rw [after, outcome_caught]

theorem Gives.result_bind {call : Call ω σ α} {state middle : σ} {a : α}
    (h : call.Gives state a middle) (next : α → Call ω σ β) :
    (call >>= next).result state = (next a).result middle := by
  obtain ⟨hresult, rfl⟩ := h
  rw [result, outcome_bind, hresult]
  rfl

theorem Gives.after_bind {call : Call ω σ α} {state middle : σ} {a : α}
    (h : call.Gives state a middle) (next : α → Call ω σ β) :
    (call >>= next).after state = (next a).after middle := by
  obtain ⟨hresult, rfl⟩ := h
  rw [Call.after, outcome_bind, hresult]
  rfl

/-- After a call that succeeds, a sequence goes on with the next from what it left. -/
theorem Gives.bind {call : Call ω σ α} {next : α → Call ω σ β} {state middle after : σ} {a : α}
    {b : β} (h : call.Gives state a middle) (hnext : (next a).Gives middle b after) :
    (call >>= next).Gives state b after :=
  ⟨(h.result_bind next).trans hnext.1, (h.after_bind next).trans hnext.2⟩

/-- Calls that all succeed and leave the state as it is give a list of their values. -/
theorem gives_mapM {f : α → Call ω σ β} {g : α → β} {l : List α} {state : σ}
    (h : ∀ a ∈ l, (f a).Gives state (g a) state) : (l.mapM f).Gives state (l.map g) state := by
  induction l with
  | nil => exact gives_pure [] state
  | cons a l ih =>
    have htail := ih fun b hb => h b (List.mem_cons_of_mem a hb)
    rw [List.mapM_cons]
    exact (h a List.mem_cons_self).bind (htail.bind (gives_pure (g a :: l.map g) state))

/-- A call that fails ends a sequence with its failure. -/
theorem result_bind_of_error {call : Call ω σ α} {state : σ} {failure : Failure}
    (h : call.result state = .error failure) (next : α → Call ω σ β) :
    (call >>= next).result state = .error failure := by
  rw [result, outcome_bind, h]

/-- A call that fails ends a sequence in the state that it left. -/
theorem after_bind_of_error {call : Call ω σ α} {state : σ} {failure : Failure}
    (h : call.result state = .error failure) (next : α → Call ω σ β) :
    (call >>= next).after state = call.after state := by
  rw [after, outcome_bind, h]

theorem result_bind_pure_eq_error_iff {call : Call ω σ α} {f : α → β} {state : σ}
    {failure : Failure} :
    (call >>= fun a => pure (f a)).result state = .error failure ↔
      call.result state = .error failure := by
  rw [result, outcome_bind]
  cases call.result state with
  | ok a => exact ⟨nofun, nofun⟩
  | error other => simp only [Except.error.injEq]

theorem after_bind_pure (call : Call ω σ α) (f : α → β) (state : σ) :
    (call >>= fun a => pure (f a)).after state = call.after state := by
  rw [after, outcome_bind]
  cases call.result state <;> rfl

end Call
end LazyTally
