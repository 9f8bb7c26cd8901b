import LazyTally.Proofs.Reporting
import LazyTally.Proofs.Script
import LazyTally.Session.Run

/-!
# The life of a store

A store is opened and closed many times, with whatever options, and some openings fail.  In
between, its engine is called, and some calls fail too.  Through all of that the store stands
under one operator at most: the first opening with an operator marks it, and from then on only
that operator gets to see the data.

## Main definitions

* `Engine.Operation` — a call on an engine.
* `Life`, `Life.Act`, `Life.after` — a store with its past, and what can happen to it.
* `Life.identity` — the mark of the store.
* `Life.Opens`, `Life.Refuses` — how an opening ends.
* `Life.Under` — the store stands under an operator, or under none yet.

## Main results

* `Life.Under.after` — what happens to a store leaves it under the operator that it was under.
* `Life.of_one_operator` — the mark is that of the first opening with an operator, it decides
  which openings succeed, and no other operator ever resolves anything.
-/

namespace LazyTally

/-- A call on an engine. -/
inductive Engine.Operation where
  | put (key value : Bytes)
  | get (key : Bytes)
  | delete (key : Bytes)
  | merge (key operand : Bytes)
  | write (batch : Batch)
  | flush
  | compact
  | dump
  deriving DecidableEq, Repr

/-- The call, whatever its value is. -/
def Engine.Operation.call {σ : Type} (engine : Engine σ) : Operation → Call Event σ Unit
  | put key value => engine.put key value
  | get key => engine.get key >>= fun _ => pure ()
  | delete key => engine.delete key
  | merge key operand => engine.merge key operand
  | write batch => engine.write batch
  | flush => engine.flush
  | compact => engine.compact
  | dump => engine.dump >>= fun _ => pure ()

/-- A store with its past. -/
structure Life where
  /-- The store, open or closed. -/
  phase : Session.Phase Layered
  /-- The options with which it was opened, oldest first. -/
  openings : List Options
  /-- What was reported on it, oldest first. -/
  events : List Engine.Event

namespace Life

/-- What can happen to a store. -/
inductive Act where
  /-- Someone tries to open it. -/
  | opening (options : Options)
  /-- Its engine is called. -/
  | operation (operation : Engine.Operation)
  /-- Its engine is closed. -/
  | closing
  deriving DecidableEq, Repr

/-- A store that was never written. -/
def start : Life := ⟨.closed Store.empty, [], []⟩

/-- The store after something happened to it.  An open store is not opened, and a closed one is
not called or closed.  A failed opening leaves the closed store, and a failed call leaves what it
did before it failed. -/
def after (life : Life) : Act → Life
  | .opening options =>
      match life.phase with
      | .opened _ => life
      | .closed store =>
          let opened := Layered.ofStore store options
          match opened.result with
          | .ok engine =>
              ⟨.opened engine, life.openings ++ [options], life.events ++ opened.events⟩
          | .error _ => { life with events := life.events ++ opened.events }
  | .operation operation =>
      match life.phase with
      | .opened engine =>
          let call := operation.call Layered.engine
          { life with
            phase := .opened (call.after engine)
            events := life.events ++ call.events engine }
      | .closed _ => life
  | .closing =>
      match life.phase with
      | .opened engine => { life with phase := .closed engine.close }
      | .closed _ => life

/-- The store after all that happened to it. -/
def of (acts : List Act) : Life := acts.foldl after start

/-- The mark of the store. -/
def identity (life : Life) : Option String :=
  match life.phase with
  | .opened engine => engine.identity
  | .closed store => store.operator

/-- An opening with the options succeeds and leaves the engine under a mark. -/
def Opens (life : Life) (options : Options) (mark : Option String) : Prop :=
  ∃ store engine, life.phase = .closed store ∧
    (Layered.ofStore store options).result = .ok engine ∧ engine.identity = mark ∧
    (life.after (.opening options)).phase = .opened engine

/-- An opening with the options fails and leaves the closed store as it is. -/
def Refuses (life : Life) (options : Options) (failure : Failure) : Prop :=
  ∃ store, life.phase = .closed store ∧
    (Layered.ofStore store options).result = .error failure ∧
    (life.after (.opening options)).phase = .closed store

/-! ### Stores under an operator -/

/-- The store stands under the operator, or without one. -/
def PhaseUnder (operator : Option OperatorKind) : Session.Phase Layered → Prop
  | .opened engine => engine.OpenUnder operator
  | .closed store =>
      store.operator = operator.map OperatorKind.name ∧ ∀ run ∈ store.runs, KeyMap.Ascending run

/-- The store stands under the operator, and always has stood under it or under none. -/
structure Under (operator : Option OperatorKind) (life : Life) : Prop where
  /-- It stands under the operator. -/
  phase : PhaseUnder operator life.phase
  /-- The operator is the first with which it was opened. -/
  openings : life.openings.findSome? Options.operator = operator
  /-- No other operator ever reported anything. -/
  events : ∀ event ∈ life.events, ∀ kind, event.kind? = some kind → operator = some kind

theorem under_start : start.Under none :=
  ⟨⟨rfl, nofun⟩, rfl, nofun⟩

section

variable {operator : Option OperatorKind} {life : Life}

theorem Under.identity_eq (h : life.Under operator) :
    life.identity = operator.map OperatorKind.name := by
  have hphase := h.phase
  unfold identity
  cases hlife : life.phase with
  | opened engine =>
    rw [hlife] at hphase
    exact hphase.identity_eq
  | closed store =>
    rw [hlife] at hphase
    exact hphase.1

/-! ### What happens to a store -/

/-- To open a store is no work for an operator. -/
theorem kind?_of_mem_events_ofStore {store : Store} {options : Options} {event : Engine.Event}
    (h : event ∈ (Layered.ofStore store options).events) : event.kind? = none := by
  have hcheck : (Layered.checkOperator store.operator options.operatorName?).ReportsOnly
      fun event => event.kind? = none := by
    unfold Layered.checkOperator
    split
    · exact Attempt.reportsOnly_pure ()
    · refine Attempt.ReportsOnly.bind (Attempt.reportsOnly_report ?_) fun _ =>
        Attempt.reportsOnly_throw _
      rfl
  exact (hcheck.bind fun _ => Attempt.reportsOnly_pure _) event h

/-- A call leaves the engine under its operator, and no other operator reports anything. -/
theorem openUnder_operation {engine : Layered} (h : engine.OpenUnder operator)
    (operation : Engine.Operation) :
    ((operation.call Layered.engine).after engine).OpenUnder operator ∧
      (operation.call Layered.engine).ReportsOnly (Engine.Event.From engine.operator) engine := by
  have hwrite : ∀ batch, ((Layered.write batch).after engine).OpenUnder operator ∧
      (Layered.write batch).ReportsOnly (Engine.Event.From engine.operator) engine := by
    intro batch
    obtain ⟨after, hgives, hafter, -⟩ := h.runs_write batch
    exact ⟨hgives.2 ▸ hafter, Layered.reportsOnly_write h.total batch⟩
  cases operation with
  | put key value => exact hwrite [.put key value]
  | delete key => exact hwrite [.delete key]
  | merge key operand => exact hwrite [.merge key operand]
  | write batch => exact hwrite batch
  | flush =>
    obtain ⟨hgives, hafter, -⟩ := h.runs_flush
    exact ⟨hgives.2 ▸ hafter, Layered.reportsOnly_flush engine⟩
  | compact =>
    obtain ⟨hgives, hafter, -⟩ := h.runs_compact
    exact ⟨hgives.2 ▸ hafter, Layered.reportsOnly_compact h.total⟩
  | get key =>
    refine ⟨?_, ?_⟩
    · rw [Engine.Operation.call, Call.after_bind_pure]
      exact h
    · have hread : (Layered.engine.get key).ReportsOnly
          (Engine.Event.From engine.operator) engine :=
        Call.reportsOnly_inspect (engine.reportsOnly_find? key)
      exact hread.bind fun _ _ => Call.reportsOnly_pure ()
  | dump =>
    refine ⟨?_, ?_⟩
    · rw [Engine.Operation.call, Call.after_bind_pure]
      exact h
    · have hread : Layered.engine.dump.ReportsOnly (Engine.Event.From engine.operator) engine :=
        Call.reportsOnly_inspect engine.reportsOnly_entries
      exact hread.bind fun _ _ => Call.reportsOnly_pure ()

/-- A closed store is opened by every operator if it has no mark, and else by that of its mark;
then it stands under the operator of the options. -/
theorem Under.opens (h : life.Under operator) {store : Store} (hclosed : life.phase = .closed store)
    {options : Options} (hadopts : operator = none ∨ operator = options.operator) :
    life.Opens options options.operatorName? ∧
      (life.after (.opening options)).Under options.operator := by
  have hphase := h.phase
  rw [hclosed] at hphase
  obtain ⟨hmark, hruns⟩ := hphase
  have hresult : (Layered.ofStore store options).result =
      .ok (Layered.opened store.runs store.operator options) := by
    apply Layered.result_ofStore
    rw [hmark]
    exact OperatorKind.mark_iff.mpr hadopts
  have hopen : (Layered.opened store.runs store.operator options).OpenUnder options.operator := by
    rw [hmark]
    exact Layered.openUnder_reopened hruns hadopts
  have hafter : life.after (.opening options) =
      ⟨.opened (Layered.opened store.runs store.operator options), life.openings ++ [options],
        life.events ++ (Layered.ofStore store options).events⟩ := by
    rw [after, hclosed]
    dsimp only
    rw [hresult]
  refine ⟨⟨store, _, hclosed, hresult, hopen.identity_eq, by rw [hafter]⟩, ?_⟩
  rw [hafter]
  refine ⟨hopen, ?_, ?_⟩
  · -- a store that was never opened with an operator is opened with it now
    show (life.openings ++ [options]).findSome? Options.operator = options.operator
    rw [List.findSome?_append, h.openings]
    have hnew : [options].findSome? Options.operator = options.operator := by
      cases hoperator : options.operator <;> simp [hoperator]
    rw [hnew]
    rcases hadopts with rfl | rfl
    · exact Option.none_or
    · exact Option.or_self
  · intro event hmem kind hkind
    rcases List.mem_append.mp hmem with hold | hnew
    · -- who reported earlier is the operator of the options
      have hsome := h.events event hold kind hkind
      rcases hadopts with rfl | rfl
      · exact nomatch hsome
      · exact hsome
    · -- opening itself lets no operator report
      exact nomatch (kind?_of_mem_events_ofStore hnew).symm.trans hkind

/-- A closed store with another mark is not opened, and stands under its operator as before. -/
theorem Under.refuses (h : life.Under operator) {store : Store}
    (hclosed : life.phase = .closed store) {options : Options}
    (hother : ¬(operator = none ∨ operator = options.operator)) :
    life.Refuses options (.operatorMismatch life.identity options.operatorName?) ∧
      (life.after (.opening options)).Under operator := by
  have hidentity : life.identity = store.operator := by rw [identity, hclosed]
  have hresult : (Layered.ofStore store options).result =
      .error (.operatorMismatch life.identity options.operatorName?) := by
    rw [hidentity]
    apply Layered.result_ofStore_error
    rw [← hidentity, h.identity_eq, OperatorKind.mark_iff]
    exact hother
  have hafter : life.after (.opening options) =
      { life with events := life.events ++ (Layered.ofStore store options).events } := by
    rw [after, hclosed]
    dsimp only
    rw [hresult]
  refine ⟨⟨store, hclosed, hresult, by rw [hafter]; exact hclosed⟩, ?_⟩
  rw [hafter]
  refine ⟨h.phase, h.openings, ?_⟩
  intro event hmem kind hkind
  rcases List.mem_append.mp hmem with hold | hnew
  · exact h.events event hold kind hkind
  · exact nomatch (kind?_of_mem_events_ofStore hnew).symm.trans hkind

/-- The mark of a closed store decides how an opening ends. -/
theorem Under.opening (h : life.Under operator) {store : Store}
    (hclosed : life.phase = .closed store) (options : Options) :
    match life.identity with
    | none => life.Opens options options.operatorName?
    | some name =>
        if options.operatorName? = some name then life.Opens options (some name)
        else life.Refuses options (.operatorMismatch (some name) options.operatorName?) := by
  have hidentity := h.identity_eq
  cases operator with
  | none =>
    rw [hidentity]
    exact (h.opens hclosed (.inl rfl)).1
  | some kind =>
    have hname : options.operatorName? = some kind.name ↔ options.operator = some kind := by
      show options.operator.map OperatorKind.name = (some kind).map OperatorKind.name ↔ _
      exact (Option.map_injective OperatorKind.name_injective).eq_iff
    rw [hidentity]
    show if options.operatorName? = some kind.name then _ else _
    by_cases hsame : options.operator = some kind
    · -- the kind that the store was marked with
      rw [if_pos (hname.mpr hsame), ← hname.mpr hsame]
      exact (h.opens hclosed (.inr hsame.symm)).1
    · -- another kind, or none
      have hother : ¬(some kind = none ∨ some kind = options.operator) := by
        rintro (hnone | heq)
        · exact nomatch hnone
        · exact hsame heq.symm
      have hrefuses := (h.refuses hclosed hother).1
      rw [hidentity] at hrefuses
      rw [if_neg (mt hname.mp hsame)]
      exact hrefuses

theorem Under.operates (h : life.Under operator) (operation : Engine.Operation) :
    (life.after (.operation operation)).Under operator := by
  have hphase := h.phase
  rw [after]
  cases hlife : life.phase with
  | closed store => exact h
  | opened engine =>
    rw [hlife] at hphase
    obtain ⟨hafter, hreports⟩ := openUnder_operation hphase operation
    refine ⟨hafter, h.openings, ?_⟩
    intro event hmem kind hkind
    rcases List.mem_append.mp hmem with hold | hnew
    · exact h.events event hold kind hkind
    · have hfrom := hreports event hnew
      rw [hphase.operator_eq] at hfrom
      exact hfrom.kind hkind

theorem Under.closes (h : life.Under operator) : (life.after .closing).Under operator := by
  have hphase := h.phase
  rw [after]
  cases hlife : life.phase with
  | closed store => exact h
  | opened engine =>
    rw [hlife] at hphase
    exact ⟨⟨hphase.identity_eq, Layered.ascending_close hphase.ascending⟩, h.openings, h.events⟩

/-- Whatever happens to a store, it stands under the operator that it stood under; a store that
stood under none may get one. -/
theorem Under.after (h : life.Under operator) (act : Act) :
    ∃ next, (operator = none ∨ operator = next) ∧ (life.after act).Under next := by
  cases act with
  | operation operation => exact ⟨operator, .inr rfl, h.operates operation⟩
  | closing => exact ⟨operator, .inr rfl, h.closes⟩
  | opening options =>
    cases hlife : life.phase with
    | opened engine =>
      refine ⟨operator, .inr rfl, ?_⟩
      rw [Life.after, hlife]
      exact h
    | closed store =>
      by_cases hadopts : operator = none ∨ operator = options.operator
      · exact ⟨options.operator, hadopts, (h.opens hlife hadopts).2⟩
      · exact ⟨operator, .inr rfl, (h.refuses hlife hadopts).2⟩

theorem Under.foldl (h : life.Under operator) (acts : List Act) :
    ∃ next, (operator = none ∨ operator = next) ∧ (acts.foldl Life.after life).Under next := by
  induction acts generalizing life operator with
  | nil => exact ⟨operator, .inr rfl, h⟩
  | cons act acts ih =>
    obtain ⟨middle, hmiddle, hafter⟩ := h.after act
    obtain ⟨next, hnext, hall⟩ := ih hafter
    refine ⟨next, ?_, hall⟩
    rcases hmiddle with hnone | rfl
    · exact .inl hnone
    · exact hnext

end

theorem under_of (acts : List Act) : ∃ operator, (of acts).Under operator := by
  obtain ⟨operator, -, hunder⟩ := under_start.foldl acts
  exact ⟨operator, hunder⟩

/-- Earlier the store stood under the same operator, or under none. -/
theorem Under.earlier {operator : Option OperatorKind} {acts earlier : List Act}
    (h : (of acts).Under operator) (hearlier : earlier <+: acts) :
    ∃ before, (before = none ∨ before = operator) ∧ (of earlier).Under before := by
  obtain ⟨later, rfl⟩ := hearlier
  obtain ⟨before, hbefore⟩ := under_of earlier
  obtain ⟨next, hnext, hafter⟩ := hbefore.foldl later
  -- both are the operator of the same openings
  rw [of, List.foldl_append] at h
  obtain rfl : next = operator := hafter.openings.symm.trans h.openings
  exact ⟨before, hnext, hbefore⟩

/-- Whatever happens to a store that was never written, its mark is none until it is opened with
an operator for the first time, and the name of that operator ever after.  Without a mark every
opening succeeds, and marks the store if there is an operator; with a mark exactly those with
the same name succeed, and all others are told both names.  There is one kind of operator so
that no open engine ever has another, and no other ever reports that it resolved anything. -/
theorem of_one_operator (acts : List Act) :
    (of acts).identity = (of acts).openings.findSome? Options.operatorName? ∧
    (∀ earlier, earlier <+: acts →
      (of earlier).identity = none ∨ (of earlier).identity = (of acts).identity) ∧
    (∀ store options, (of acts).phase = .closed store →
      match (of acts).identity with
      | none => (of acts).Opens options options.operatorName?
      | some name =>
          if options.operatorName? = some name then (of acts).Opens options (some name)
          else (of acts).Refuses options (.operatorMismatch (some name) options.operatorName?)) ∧
    ∃ kind : OperatorKind,
      ((of acts).identity = none ∨ (of acts).identity = some kind.name) ∧
      (∀ earlier engine, earlier <+: acts → (of earlier).phase = .opened engine →
        engine.operator = none ∨ engine.operator = some kind.operator) ∧
      ∀ event ∈ (of acts).events, ∀ other, event.kind? = some other → other = kind := by
  obtain ⟨operator, hunder⟩ := under_of acts
  refine ⟨?_, ?_, ?_, ?_⟩
  · rw [hunder.identity_eq, ← hunder.openings, List.map_findSome?]
    rfl
  · intro earlier hearlier
    obtain ⟨before, hsame, hbefore⟩ := hunder.earlier hearlier
    rw [hbefore.identity_eq, hunder.identity_eq]
    rcases hsame with rfl | rfl
    · exact .inl rfl
    · exact .inr rfl
  · intro store options hclosed
    exact hunder.opening hclosed options
  · -- where no operator was configured so far, any kind will do
    refine ⟨operator.getD .associative, ?_, ?_, ?_⟩
    · rw [hunder.identity_eq]
      cases operator with
      | none => exact .inl rfl
      | some kind => exact .inr rfl
    · intro earlier engine hearlier hopened
      obtain ⟨before, hsame, hbefore⟩ := hunder.earlier hearlier
      have hphase := hbefore.phase
      rw [hopened] at hphase
      rw [hphase.operator_eq]
      -- an earlier life had no operator yet, or that of the whole
      rcases hsame with rfl | rfl
      · exact .inl rfl
      · cases before with
        | none => exact .inl rfl
        | some kind => exact .inr rfl
    · intro event hmem other hkind
      rw [hunder.events event hmem other hkind]
      rfl

/-- A store that was first opened without an operator, and could not be read, is adopted by one,
and refuses the other from then on, and to be opened without any. -/
theorem of_one_operator_adopted :
    let acts : List Act :=
      [.opening ⟨none, 0, true⟩, .operation (.merge [1] [5]), .operation (.get [1]), .closing,
        .opening ⟨some .associative, 1, true⟩, .operation (.get [1]), .closing,
        .opening ⟨some .fullPartial, 0, true⟩]
    (∃ store, (of acts).phase = .closed store) ∧
      (of acts).identity = some "UInt64AddOperator" ∧
      (of acts).Opens ⟨some .associative, 0, true⟩ (some "UInt64AddOperator") ∧
      (of acts).Refuses ⟨some .fullPartial, 0, true⟩
        (.operatorMismatch (some "UInt64AddOperator") (some "CountBaseOriginalMergeOperator")) ∧
      (of acts).Refuses ⟨none, 0, true⟩ (.operatorMismatch (some "UInt64AddOperator") none) ∧
      .operator (.adopted [1] [5]) ∈ (of acts).events := by
  intro acts
  have hclosed : ∃ store, (of acts).phase = .closed store := ⟨_, rfl⟩
  obtain ⟨store, hstore⟩ := hclosed
  obtain ⟨hmark, -, hopening, -⟩ := of_one_operator acts
  have hidentity : (of acts).identity = some "UInt64AddOperator" := hmark.trans rfl
  have hending := fun options => hopening store options hstore
  rw [hidentity] at hending
  exact ⟨⟨store, hstore⟩, hidentity, hending ⟨some .associative, 0, true⟩,
    hending ⟨some .fullPartial, 0, true⟩, hending ⟨none, 0, true⟩, by decide⟩

end Life
end LazyTally
