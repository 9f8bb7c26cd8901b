import LazyTally.Proofs.Reorganising

/-!
# What computations report

Events tell who did what, so it matters which events a computation can report at all.  That is
found out by rules that follow the way in which the computation is put together.  An engine
reports what its operator reports, together with events of its own; and each operator on
counters has events that the other one never reports.

## Main definitions

* `Traced.ReportsOnly`, `Attempt.ReportsOnly`, `Call.ReportsOnly` — every reported event is an
  allowed one.
* `Operator.Reports` — the event is one that the operator can report.
* `Engine.Event.From` — the event is not one of another operator.
* `Engine.Event.kind?` — the kind of the operator that alone can have reported the event.

## Main results

* `OperatorKind.kind?_of_reports` — an operator reports no events of the other kind.
* `Layered.reportsOnly_write`, `Layered.reportsOnly_flush`, `Layered.reportsOnly_compact`,
  `Layered.reportsOnly_find?`, `Layered.reportsOnly_entries` — an engine lets only its own
  operator report.
-/

namespace LazyTally

/-! ### Rules -/

namespace Traced

variable {ω ω' α β : Type} {allowed : ω → Prop}

/-- Every reported event is an allowed one. -/
def ReportsOnly (allowed : ω → Prop) (x : Traced ω α) : Prop := ∀ event ∈ x.events, allowed event

theorem reportsOnly_pure (a : α) : (pure a : Traced ω α).ReportsOnly allowed := nofun

theorem reportsOnly_report {event : ω} (h : allowed event) :
    (report event : Traced ω Unit).ReportsOnly allowed := by
  intro reported hmem
  rw [List.mem_singleton.mp hmem]
  exact h

theorem ReportsOnly.bind {x : Traced ω α} {next : α → Traced ω β} (h : x.ReportsOnly allowed)
    (hnext : ∀ a, (next a).ReportsOnly allowed) : (x >>= next).ReportsOnly allowed := by
  intro event hmem
  rw [events_bind] at hmem
  rcases List.mem_append.mp hmem with hfirst | hsecond
  · exact h event hfirst
  · exact hnext x.value event hsecond

theorem ReportsOnly.relabel {allowed : ω' → Prop} {f : ω → ω'} {x : Traced ω α}
    (h : x.ReportsOnly fun event => allowed (f event)) : (x.relabel f).ReportsOnly allowed := by
  intro event hmem
  obtain ⟨reported, hreported, rfl⟩ := List.mem_map.mp hmem
  exact h reported hreported

end Traced

namespace Attempt

variable {ω α β : Type} {allowed : ω → Prop}

/-- Every reported event is an allowed one. -/
def ReportsOnly (allowed : ω → Prop) (x : Attempt ω α) : Prop := Traced.ReportsOnly allowed x.run

theorem reportsOnly_pure (a : α) : (pure a : Attempt ω α).ReportsOnly allowed := nofun

theorem reportsOnly_throw (failure : Failure) :
    (throw failure : Attempt ω α).ReportsOnly allowed := nofun

theorem ReportsOnly.bind {x : Attempt ω α} {next : α → Attempt ω β} (h : x.ReportsOnly allowed)
    (hnext : ∀ a, (next a).ReportsOnly allowed) : (x >>= next).ReportsOnly allowed := by
  refine Traced.ReportsOnly.bind h ?_
  rintro (failure | a)
  · exact Traced.reportsOnly_pure _
  · exact hnext a

theorem reportsOnly_lift {x : Traced ω α} (h : x.ReportsOnly allowed) :
    (liftM x : Attempt ω α).ReportsOnly allowed :=
  Traced.ReportsOnly.bind h fun _ => Traced.reportsOnly_pure _

theorem reportsOnly_report {event : ω} (h : allowed event) :
    (report event : Attempt ω Unit).ReportsOnly allowed :=
  reportsOnly_lift (Traced.reportsOnly_report h)

theorem ReportsOnly.map {x : Attempt ω α} (h : x.ReportsOnly allowed) (f : α → β) :
    (f <$> x).ReportsOnly allowed := by
  rw [map_eq_pure_bind]
  exact h.bind fun a => reportsOnly_pure (f a)

theorem reportsOnly_mapM {f : α → Attempt ω β} {l : List α}
    (h : ∀ a, (f a).ReportsOnly allowed) : (l.mapM f).ReportsOnly allowed := by
  induction l with
  | nil => exact reportsOnly_pure []
  | cons a l ih =>
    rw [List.mapM_cons]
    exact (h a).bind fun b => ih.bind fun bs => reportsOnly_pure (b :: bs)

end Attempt

namespace Call

variable {ω σ α β : Type} {allowed : ω → Prop} {state : σ}

/-- On the state, every reported event is an allowed one. -/
def ReportsOnly (allowed : ω → Prop) (call : Call ω σ α) (state : σ) : Prop :=
  Traced.ReportsOnly allowed (call.outcome state)

theorem reportsOnly_pure (a : α) : (pure a : Call ω σ α).ReportsOnly allowed state := nofun

theorem reportsOnly_get : (get : Call ω σ σ).ReportsOnly allowed state := nofun

theorem reportsOnly_set (new : σ) : (set new : Call ω σ PUnit).ReportsOnly allowed state := nofun

theorem reportsOnly_modify (f : σ → σ) :
    (modify f : Call ω σ PUnit).ReportsOnly allowed state := nofun

theorem reportsOnly_report {event : ω} (h : allowed event) :
    (report event : Call ω σ Unit).ReportsOnly allowed state := by
  rw [ReportsOnly, outcome_report]
  exact Traced.reportsOnly_report h

theorem reportsOnly_inspect {attempt : σ → Attempt ω α} (h : (attempt state).ReportsOnly allowed) :
    (inspect attempt).ReportsOnly allowed state :=
  Traced.ReportsOnly.bind h fun _ => Traced.reportsOnly_pure _

theorem reportsOnly_lift {attempt : Attempt ω α} (h : attempt.ReportsOnly allowed) :
    (liftM attempt : Call ω σ α).ReportsOnly allowed state := reportsOnly_inspect h

/-- What comes next starts where the first call left off. -/
theorem ReportsOnly.bind {call : Call ω σ α} {next : α → Call ω σ β}
    (h : call.ReportsOnly allowed state)
    (hnext : ∀ a, call.result state = .ok a → (next a).ReportsOnly allowed (call.after state)) :
    (call >>= next).ReportsOnly allowed state := by
  rw [ReportsOnly, outcome_bind]
  cases hresult : call.result state with
  | error failure => exact h
  | ok a =>
    intro event hmem
    rcases List.mem_append.mp hmem with hfirst | hsecond
    · exact h event hfirst
    · exact hnext a hresult event hsecond

/-- A call that reads the state first is about that state. -/
theorem reportsOnly_get_bind {next : σ → Call ω σ β} (h : (next state).ReportsOnly allowed state) :
    (get >>= next).ReportsOnly allowed state := by
  refine reportsOnly_get.bind ?_
  intro read hread
  obtain rfl : state = read := Except.ok.inj hread
  exact h

end Call

/-! ### Operators -/

namespace Operator

/-- The event is one that the operator can report. -/
inductive Reports (operator : Operator) (event : Event) : Prop
  | full {key : Bytes} {existing : Option Bytes} {operands : List Bytes}
      (h : event ∈ (operator.fullMerge key existing operands).events)
  | pair {key left right : Bytes} (h : event ∈ (operator.partialMerge key left right).events)
  | list {key : Bytes} {operands : List Bytes}
      (h : event ∈ (operator.partialMergeAll key operands).events)

/-- The kind of the operator that alone can have reported the event. -/
def Event.kind? : Event → Option OperatorKind
  | malformed _ _ => none
  | adopted _ _ | added _ _ _ => some .associative
  | fullSum _ _ _ _ | pairSum _ _ | listSum _ _ _ => some .fullPartial

/-- The event is not one of the other kind. -/
def Event.Of (kind : OperatorKind) (event : Event) : Prop :=
  event.kind? = none ∨ event.kind? = some kind

theorem reportsOnly_countOrZero (kind : OperatorKind) (key value : Bytes) :
    (countOrZero key value).ReportsOnly (Event.Of kind) := by
  rw [countOrZero]
  cases Counter.decode? value with
  | some count => exact Traced.reportsOnly_pure count
  | none =>
    exact (Traced.reportsOnly_report (.inl rfl)).bind fun _ => Traced.reportsOnly_pure 0

theorem reportsOnly_addition_merge (key : Bytes) (existing : Option Bytes) (operand : Bytes) :
    (addition.merge key existing operand).ReportsOnly (Event.Of .associative) := by
  cases existing with
  | none => exact (Traced.reportsOnly_report (.inr rfl)).bind fun _ => Traced.reportsOnly_pure _
  | some value =>
    refine (reportsOnly_countOrZero _ key value).bind fun base => ?_
    refine (reportsOnly_countOrZero _ key operand).bind fun delta => ?_
    exact (Traced.reportsOnly_report (.inr rfl)).bind fun _ => Traced.reportsOnly_pure _

/-- A fold reports what its steps report. -/
theorem reportsOnly_fold {allowed : Event → Prop}
    {merge : Option Bytes → Bytes → Traced Event (Option Bytes)}
    (h : ∀ existing operand, (merge existing operand).ReportsOnly allowed)
    (existing : Option Bytes) (operands : List Bytes) :
    (Pairwise.fold merge existing operands).ReportsOnly allowed := by
  induction operands generalizing existing with
  | nil => exact Traced.reportsOnly_pure existing
  | cons operand rest ih =>
    refine (h existing operand).bind ?_
    rintro (_ | merged)
    · exact Traced.reportsOnly_pure none
    · exact ih (some merged)

theorem reportsOnly_combineAll {allowed : Event → Prop}
    {combine : Bytes → Bytes → Traced Event (Option Bytes)}
    (h : ∀ left right, (combine left right).ReportsOnly allowed) (operands : List Bytes) :
    (combineAll combine operands).ReportsOnly allowed := by
  cases operands with
  | nil => exact Traced.reportsOnly_pure none
  | cons first rest =>
    rw [combineAll]
    induction rest generalizing first with
    | nil => exact Traced.reportsOnly_pure (some first)
    | cons operand rest ih =>
      refine (h first operand).bind ?_
      rintro (_ | merged)
      · exact Traced.reportsOnly_pure none
      · exact ih merged

theorem reportsOnly_sumOnto (kind : OperatorKind) (key : Bytes) (total : UInt64)
    (values : List Bytes) : (sumOnto key total values).ReportsOnly (Event.Of kind) := by
  induction values generalizing total with
  | nil => exact Traced.reportsOnly_pure total
  | cons value rest ih => exact (reportsOnly_countOrZero kind key value).bind fun count => ih _

/-- A sum that is reported as one of summation reports nothing of addition. -/
theorem reportsOnly_summed (key : Bytes) (values : List Bytes) {event : UInt64 → Event}
    (h : ∀ total, (event total).kind? = some .fullPartial) :
    Traced.ReportsOnly (Event.Of .fullPartial) (do
      let total ← sumOnto key 0 values
      report (event total)
      pure (some (Counter.encode total))) := by
  refine (reportsOnly_sumOnto _ key 0 values).bind fun total => ?_
  exact (Traced.reportsOnly_report (.inr (h total))).bind fun _ => Traced.reportsOnly_pure _

end Operator

/-- An operator reports no events of the other kind. -/
theorem OperatorKind.kind?_of_reports {kind : OperatorKind} {event : Operator.Event}
    (h : kind.operator.Reports event) : event.Of kind := by
  cases kind with
  | associative =>
    cases h with
    | full h => exact Operator.reportsOnly_fold (Operator.reportsOnly_addition_merge _) _ _ event h
    | pair h => exact Operator.reportsOnly_addition_merge _ (some _) _ event h
    | list h =>
      refine Operator.reportsOnly_combineAll ?_ _ event h
      exact fun left right => Operator.reportsOnly_addition_merge _ (some left) right
  | fullPartial =>
    cases h with
    | full h => exact Operator.reportsOnly_summed _ _ (fun _ => rfl) event h
    | pair h => exact Operator.reportsOnly_summed _ _ (fun _ => rfl) event h
    | list h => exact Operator.reportsOnly_summed _ _ (fun _ => rfl) event h

/-! ### Resolution -/

namespace Engine.Event

/-- If an operator reported the event, it was this one. -/
def From (operator : Option Operator) (event : Event) : Prop :=
  ∀ reported, event = .operator reported → ∃ op, operator = some op ∧ op.Reports reported

/-- The kind of the operator that alone can have reported the event. -/
def kind? : Event → Option OperatorKind
  | .operator event => event.kind?
  | _ => none

theorem From.kind {kind : OperatorKind} {operator : Option OperatorKind} {event : Event}
    (h : event.From (operator.map OperatorKind.operator)) (hkind : event.kind? = some kind) :
    operator = some kind := by
  cases event with
  | operator reported =>
    obtain ⟨op, hop, hreports⟩ := h reported rfl
    obtain ⟨configured, rfl, rfl⟩ := Option.map_eq_some_iff.mp hop
    have hkind : reported.kind? = some kind := hkind
    rcases OperatorKind.kind?_of_reports hreports with hnone | hsome
    · exact nomatch hnone.symm.trans hkind
    · exact hsome.symm.trans hkind
  | _ => exact nomatch hkind

end Engine.Event

namespace Resolution

open Engine (Event)

variable {operator : Option Operator} {op : Operator}

/-- What an operator reports is passed on as its own. -/
theorem reportsOnly_relabel {α : Type} {merged : Traced Operator.Event α}
    (h : ∀ event ∈ merged.events, op.Reports event) :
    (merged.relabel Event.operator).ReportsOnly (Event.From (some op)) := by
  refine Traced.ReportsOnly.relabel ?_
  intro event hmem reported heq
  obtain rfl := Event.operator.inj heq
  exact ⟨op, rfl, h event hmem⟩

theorem reportsOnly_full (operator : Option Operator) (key : Bytes) (existing : Option Bytes)
    (operands : List Bytes) :
    (full operator key existing operands).ReportsOnly (Event.From operator) := by
  cases operator with
  | none =>
    exact (Attempt.reportsOnly_report nofun).bind fun _ => Attempt.reportsOnly_throw _
  | some op =>
    refine (Attempt.reportsOnly_report nofun).bind fun _ => ?_
    refine (Attempt.reportsOnly_lift (reportsOnly_relabel fun event => .full)).bind ?_
    rintro (_ | value)
    · exact Attempt.reportsOnly_throw _
    · exact Attempt.reportsOnly_pure value

theorem reportsOnly_partially (op : Operator) (key : Bytes) (operands : List Bytes) :
    (partially op key operands).ReportsOnly (Event.From (some op)) := by
  refine Traced.ReportsOnly.bind (reportsOnly_relabel ?_) ?_
  · intro event hmem
    -- the operator is asked in another way for none, one, two and more operands
    rcases operands with _ | ⟨first, _ | ⟨second, _ | ⟨third, rest⟩⟩⟩
    · exact nomatch hmem
    · dsimp only at hmem
      split at hmem
      · exact .list hmem
      · exact nomatch hmem
    · exact .pair hmem
    · exact .list hmem
  · rintro (_ | merged)
    · exact Traced.reportsOnly_pure none
    · exact (Traced.reportsOnly_report nofun).bind fun _ => Traced.reportsOnly_pure _

theorem reportsOnly_read (operator : Option Operator) (key : Bytes) (chain : Chain) :
    (read operator key chain).ReportsOnly (Event.From operator) := by
  rw [read]
  split
  · exact Attempt.reportsOnly_pure _
  · exact (reportsOnly_full operator key _ _).map some

theorem reportsOnly_settle (operator : Option Operator) (key : Bytes) (chain : Chain) :
    (settle operator key chain).ReportsOnly (Event.From operator) :=
  (reportsOnly_full operator key _ _).map Record.put

theorem reportsOnly_condense (operator : Option Operator) (key : Bytes) (chain : Chain)
    (bottommost : Bool) :
    (condense operator key chain bottommost).ReportsOnly (Event.From operator) := by
  unfold condense
  split
  · exact Attempt.reportsOnly_pure _
  · cases operator with
    | none => exact (Attempt.reportsOnly_report nofun).bind fun _ => Attempt.reportsOnly_pure _
    | some op =>
      dsimp only
      split
      · exact (reportsOnly_settle _ key chain).bind fun _ => Attempt.reportsOnly_pure _
      · split
        · -- unsettled operands are merged only if the operator wants it
          refine (Attempt.reportsOnly_lift (reportsOnly_partially op key chain.operands)).bind ?_
          rintro (_ | merged)
          · exact Attempt.reportsOnly_pure _
          · exact Attempt.reportsOnly_pure _
        · exact Attempt.reportsOnly_pure _

theorem reportsOnly_shorten (op : Operator) (key : Bytes) (chain : Chain) :
    (shorten op key chain).ReportsOnly (Event.From (some op)) := by
  rw [shorten]
  split
  · exact (reportsOnly_settle _ key chain).map some
  · exact (Attempt.reportsOnly_lift (reportsOnly_partially op key chain.operands)).bind fun _ =>
      Attempt.reportsOnly_pure _

end Resolution

/-! ### The calls of an engine -/

namespace Layered

open Engine (Event)

variable {engine : Layered}

theorem reportsOnly_find? (engine : Layered) (key : Bytes) :
    (engine.find? key).ReportsOnly (Event.From engine.operator) :=
  Resolution.reportsOnly_read engine.operator key _

theorem reportsOnly_entries (engine : Layered) :
    engine.entries.ReportsOnly (Event.From engine.operator) := by
  have hkeys : ∀ key, Attempt.ReportsOnly (Event.From engine.operator) (do
      return (← engine.find? key).map fun value => (key, value)) :=
    fun key => (engine.reportsOnly_find? key).bind fun _ => Attempt.reportsOnly_pure _
  exact (Attempt.reportsOnly_mapM hkeys).bind fun _ => Attempt.reportsOnly_pure _

theorem reportsOnly_condenseAll (operator : Option Operator) (bottommost : Bool)
    (chains : KeyMap Chain) :
    (condenseAll operator bottommost chains).ReportsOnly (Event.From operator) := by
  refine Attempt.reportsOnly_mapM fun entry => ?_
  exact (Resolution.reportsOnly_condense operator entry.1 entry.2 bottommost).bind fun _ =>
    Attempt.reportsOnly_pure _

theorem reportsOnly_flush (engine : Layered) :
    flush.ReportsOnly (Event.From engine.operator) engine := by
  refine Call.reportsOnly_get_bind ?_
  split
  · exact Call.reportsOnly_pure ()
  · refine (Call.reportsOnly_set _).bind fun _ _ => ?_
    refine (Call.reportsOnly_lift (reportsOnly_condenseAll _ _ _)).bind fun run _ => ?_
    exact (Call.reportsOnly_report nofun).bind fun _ _ => Call.reportsOnly_set _

theorem reportsOnly_compact (htotal : Resolution.Total engine.operator) :
    compact.ReportsOnly (Event.From engine.operator) engine := by
  refine (reportsOnly_flush engine).bind fun _ _ => ?_
  -- the flush in front keeps the operator
  rw [(gives_flush htotal).2, ← operator_flushed engine]
  refine Call.reportsOnly_get_bind ?_
  refine (Call.reportsOnly_lift (reportsOnly_condenseAll _ _ _)).bind fun kept _ => ?_
  exact (Call.reportsOnly_report nofun).bind fun _ _ => Call.reportsOnly_set _

theorem reportsOnly_enforceLimit (engine : Layered) (key : Bytes) :
    (enforceLimit key).ReportsOnly (Event.From engine.operator) engine := by
  refine Call.reportsOnly_get_bind ?_
  dsimp only
  split
  · exact Call.reportsOnly_pure ()
  · next op hop =>
    rw [hop]
    split
    · exact Call.reportsOnly_pure ()
    · refine (Call.reportsOnly_report nofun).bind fun _ _ => ?_
      refine (Call.reportsOnly_lift (Resolution.reportsOnly_shorten op key _)).bind ?_
      rintro (_ | record) -
      · exact Call.reportsOnly_pure ()
      · exact (Call.reportsOnly_report nofun).bind fun _ _ => Call.reportsOnly_set _

theorem reportsOnly_forM_enforceLimit (htotal : Resolution.Total engine.operator)
    (keys : List Bytes) :
    (keys.forM enforceLimit).ReportsOnly (Event.From engine.operator) engine := by
  induction keys generalizing engine with
  | nil => exact Call.reportsOnly_pure ()
  | cons key keys ih =>
    refine (reportsOnly_enforceLimit engine key).bind fun _ _ => ?_
    obtain ⟨after, hgives, hlimits⟩ := gives_enforceLimit htotal key
    have hsame := hlimits.operator_eq
    rw [hgives.2, ← hsame]
    exact ih (hsame ▸ htotal)

theorem reportsOnly_write (htotal : Resolution.Total engine.operator) (batch : Batch) :
    (write batch).ReportsOnly (Event.From engine.operator) engine := by
  refine (Call.reportsOnly_modify _).bind fun _ _ => ?_
  have hpushed : Resolution.Total (engine.pushed batch).operator := htotal
  exact reportsOnly_forM_enforceLimit hpushed batch.mergedKeys

end Layered
end LazyTally
