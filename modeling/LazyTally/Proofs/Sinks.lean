import LazyTally.Counters.Metered
import LazyTally.Engine.Metered
import LazyTally.Engine.Refusing
import LazyTally.Metrics.Meter
import LazyTally.Proofs.Following
import LazyTally.Workload.Run

/-!
# What a sink changes

Nothing, except in the statistics.  Each part of a store that was given a sink follows the part
without one: the two operators through their folds, the engine through resolutions, batches,
flushes and compactions, the facade through its three ways to add, and a workload through all its
workers.

## Main definitions

* `Operator.Metered.Follows` — an operator with a sink follows one without.
* `Engine.Follows` — so does an engine.
* `Counters.Metered.Shows` — counters that are plain ones but for the sinks.

## Main results

* `OperatorKind.follows_build` — the operators that a store builds.
* `Layered.Metered.follows` — the layered engine, from its operator and its layers.
* `Engine.Follows.refusing` — an engine behind refusals.
* `Counters.Metered.Shows.follows_set`, `Counters.Metered.Shows.follows_get`,
  `Counters.Metered.Shows.follows_remove`, `Counters.Metered.Shows.follows_add` — the facade.
* `Workload.follows_runWith`, `Workload.Report.follows_mismatchesWith` — what is made of it.
-/

namespace LazyTally

/-! ### Operators -/

namespace Operator

open Counting (Follows)

variable {sink : Option Sink} {key : Bytes}

/-- An input is counted at most once, where it is read. -/
theorem follows_countOrZero (value : Bytes) :
    Follows (Sink.ticker? sink Event.ticker?) (Metered.countOrZero sink key value)
      (countOrZero key value) := by
  unfold Metered.countOrZero countOrZero
  cases Counter.decode? value with
  | some count => exact Counting.follows_pure count
  | none => exact Follows.counted rfl (Counting.follows_pure 0)

theorem follows_sumOnto (total : UInt64) (values : List Bytes) :
    Follows (Sink.ticker? sink Event.ticker?) (Metered.sumOnto sink key total values)
      (sumOnto key total values) := by
  induction values generalizing total with
  | nil => exact Counting.follows_pure total
  | cons value rest ih => exact (follows_countOrZero value).bind fun count => ih (total + count)

/-- An operand that is the result is not read, and so not counted. -/
theorem follows_addition_merge (existing : Option Bytes) (operand : Bytes) :
    Follows (Sink.ticker? sink Event.ticker?)
      ((Metered.addition sink).merge key existing operand)
      (addition.merge key existing operand) := by
  cases existing with
  | none =>
    refine (Counting.follows_report ?_).bind fun _ => Counting.follows_pure _
    exact Sink.ticker?_eq_none rfl
  | some existing =>
    refine (follows_countOrZero existing).bind fun base => ?_
    refine (follows_countOrZero operand).bind fun delta => ?_
    refine (Counting.follows_report ?_).bind fun _ => Counting.follows_pure _
    exact Sink.ticker?_eq_none rfl

/-- A sum that is reported and written down. -/
theorem follows_summed {event : UInt64 → Event} (h : ∀ total, (event total).ticker? = none)
    (values : List Bytes) :
    Follows (Sink.ticker? sink Event.ticker?)
      (do
        let total ← Metered.sumOnto sink key 0 values
        report (event total)
        pure (some (Counter.encode total)))
      (do
        let total ← sumOnto key 0 values
        report (event total)
        pure (some (Counter.encode total))) := by
  refine (follows_sumOnto 0 values).bind fun total => ?_
  exact (Counting.follows_report (Sink.ticker?_eq_none (h total))).bind fun _ =>
    Counting.follows_pure _

end Operator

/-! ### Folds -/

section

variable {view : Operator.Event → Option Ticker}

/-- A fold follows if its steps do; the first failure ends it in both forms. -/
theorem Pairwise.follows_fold {merge : Option Bytes → Bytes → Counting Operator.Event (Option Bytes)}
    {plain : Option Bytes → Bytes → Traced Operator.Event (Option Bytes)}
    (h : ∀ existing operand, Counting.Follows view (merge existing operand) (plain existing operand))
    (existing : Option Bytes) (operands : List Bytes) :
    Counting.Follows view (fold merge existing operands) (fold plain existing operands) := by
  induction operands generalizing existing with
  | nil => exact Counting.follows_pure existing
  | cons operand rest ih =>
    refine (h existing operand).bind fun merged => ?_
    cases merged with
    | none => exact Counting.follows_pure none
    | some merged => exact ih (some merged)

theorem Operator.follows_combineAll {combine : Bytes → Bytes → Counting Event (Option Bytes)}
    {plain : Bytes → Bytes → Traced Event (Option Bytes)}
    (h : ∀ left right, Counting.Follows view (combine left right) (plain left right))
    (operands : List Bytes) :
    Counting.Follows view (combineAll combine operands) (combineAll plain operands) := by
  -- the list is merged onto its first operand, whichever that is by then
  have honto : ∀ (rest : List Bytes) (first : Bytes),
      Counting.Follows view (combineOnto combine first rest) (combineOnto plain first rest) := by
    intro rest
    induction rest with
    | nil => exact fun first => Counting.follows_pure (some first)
    | cons operand rest ih =>
      intro first
      refine (h first operand).bind fun merged => ?_
      cases merged with
      | none => exact Counting.follows_pure none
      | some merged => exact ih merged
  cases operands with
  | nil => exact Counting.follows_pure none
  | cons first rest => exact honto rest first

end

/-- An operator with the sink does what the plain operator does, and counts what it reports. -/
structure Operator.Metered.Follows (sink : Option Sink) (metered : Operator.Metered)
    (plain : Operator) : Prop where
  /-- They have the same name. -/
  name : metered.name = plain.name
  /-- They resolve operands alike. -/
  fullMerge : ∀ key existing operands,
    Counting.Follows (Sink.ticker? sink Event.ticker?) (metered.fullMerge key existing operands)
      (plain.fullMerge key existing operands)
  /-- They merge two operands alike. -/
  partialMerge : ∀ key left right,
    Counting.Follows (Sink.ticker? sink Event.ticker?) (metered.partialMerge key left right)
      (plain.partialMerge key left right)
  /-- They merge a list of operands alike. -/
  partialMergeAll : ∀ key operands,
    Counting.Follows (Sink.ticker? sink Event.ticker?) (metered.partialMergeAll key operands)
      (plain.partialMergeAll key operands)
  /-- They welcome a single operand alike. -/
  allowsSingle : metered.allowsSingle = plain.allowsSingle
  /-- A flush may ask both for the same merges. -/
  mergesOnFlush : metered.mergesOnFlush = plain.mergesOnFlush

/-- The operator of a kind, with whatever sink it is built. -/
theorem OperatorKind.follows_build (kind : OperatorKind) (sink : Option Sink) :
    (kind.build sink).Follows sink kind.operator := by
  have haddition : (Operator.Metered.addition sink).toOperator.Follows sink
      Operator.addition.toOperator :=
    { name := rfl
      fullMerge := fun key existing operands =>
        Pairwise.follows_fold (@Operator.follows_addition_merge sink key) existing operands
      partialMerge := fun key left right => Operator.follows_addition_merge (some left) right
      partialMergeAll := fun key operands =>
        Operator.follows_combineAll
          (fun left right => @Operator.follows_addition_merge sink key (some left) right) operands
      allowsSingle := rfl
      mergesOnFlush := rfl }
  have hsummation : (Operator.Metered.summation sink).Follows sink Operator.summation :=
    { name := rfl
      fullMerge := fun key existing operands =>
        Operator.follows_summed (fun _ => rfl) (existing.toList ++ operands)
      partialMerge := fun key left right => Operator.follows_summed (fun _ => rfl) [left, right]
      partialMergeAll := fun key operands => Operator.follows_summed (fun _ => rfl) operands
      allowsSingle := rfl
      mergesOnFlush := rfl }
  -- each kind is built with its sink or without one, four ways in all
  cases kind with
  | associative => cases sink <;> exact haddition
  | fullPartial => cases sink <;> exact hsummation

/-! ### The layered engine -/

namespace Layered.Metered

open Engine (Event)

variable (engine : Layered.Metered)

/-- The ticker that an event raises for the engine. -/
def ticker? : Event → Option Ticker := Sink.ticker? engine.sink Event.ticker?

variable {engine}

theorem ticker?_eq_none {event : Event} (h : event.ticker? = none) : engine.ticker? event = none :=
  Sink.ticker?_eq_none h

/-- The engine that options make of a store is that without a sink. -/
theorem unmetered_build (store : Store) (options : Options) (sink : Option Sink) :
    (build store options sink).1.unmetered (build store options sink).2 =
      { memtable := []
        runs := store.runs
        operator := options.operator.map OperatorKind.operator
        identity := store.operator.or options.operatorName?
        limit := options.maxSuccessiveMerges } := by
  have hname : (options.operator.map fun kind => kind.build sink).map Operator.Metered.name =
      options.operatorName? := by
    rw [Options.operatorName?, Option.map_map]
    exact Option.map_congr fun kind _ => (kind.follows_build sink).name
  rw [← hname]
  rfl

/-- To open a store with a sink is to open it without one. -/
theorem unmetered_ofStore (store : Store) (options : Options) (sink : Option Sink) :
    (fun opened => opened.1.unmetered opened.2) <$> ofStore store options sink =
      Layered.ofStore store options := by
  unfold ofStore Layered.ofStore
  rw [map_bind]
  simp only [map_pure, unmetered_build]

/-- A use of the operator is counted before the operator works, which counts for itself. -/
theorem follows_full (key : Bytes) (existing : Option Bytes) (operands : List Bytes) :
    Attempt.Follows engine.ticker? (engine.full key existing operands)
      (Resolution.full engine.plainOperator key existing operands) := by
  unfold full Resolution.full plainOperator
  rw [engine.operator_eq]
  cases engine.kind with
  | none =>
    exact (Attempt.follows_report (ticker?_eq_none rfl)).bind fun _ => Attempt.follows_throw _
  | some kind =>
    -- the operator has the sink of the engine, and its events are events of the engine
    have hmerged : Counting.Follows engine.ticker?
        (((kind.build engine.sink).fullMerge key existing operands).relabel Event.operator)
        ((kind.operator.fullMerge key existing operands).relabel Event.operator) :=
      Counting.Follows.relabel ((kind.follows_build engine.sink).fullMerge key existing operands)
    refine Attempt.Follows.counted rfl ?_
    refine (Attempt.follows_lift hmerged).bind fun merged => ?_
    cases merged with
    | none => exact Attempt.follows_throw _
    | some value => exact Attempt.follows_pure value

/-- Only operands that were merged into one are counted. -/
theorem follows_partially {operator : Operator.Metered} {plain : Operator}
    (h : operator.Follows engine.sink plain) (key : Bytes) (operands : List Bytes) :
    Counting.Follows engine.ticker? (engine.partially operator key operands)
      (Resolution.partially plain key operands) := by
  unfold partially Resolution.partially
  refine Counting.Follows.bind (Counting.Follows.relabel ?_) fun merged => ?_
  · -- the operator is asked in the same way for as many operands
    rcases operands with _ | ⟨first, _ | ⟨second, _ | ⟨third, rest⟩⟩⟩
    · exact Counting.follows_pure none
    · dsimp only
      rw [h.allowsSingle]
      split
      · exact h.partialMergeAll key [first]
      · exact Counting.follows_pure none
    · exact h.partialMerge key first second
    · exact h.partialMergeAll key (first :: second :: third :: rest)
  · -- only a merge that was made is counted
    cases merged with
    | none => exact Counting.follows_pure none
    | some operand => exact Counting.Follows.counted rfl (Counting.follows_pure (some operand))

theorem follows_read (key : Bytes) (chain : Chain) :
    Attempt.Follows engine.ticker? (engine.read key chain)
      (Resolution.read engine.plainOperator key chain) := by
  unfold read Resolution.read
  split
  · exact Attempt.follows_pure _
  · exact (follows_full key _ _).map some

theorem follows_settle (key : Bytes) (chain : Chain) :
    Attempt.Follows engine.ticker? (engine.settle key chain)
      (Resolution.settle engine.plainOperator key chain) :=
  (follows_full key _ _).map Record.put

theorem follows_condense (key : Bytes) (chain : Chain) (bottommost : Bool) :
    Attempt.Follows engine.ticker? (engine.condense key chain bottommost)
      (Resolution.condense engine.plainOperator key chain bottommost) := by
  have hsettle : Attempt.Follows engine.ticker? (engine.settle key chain) _ :=
    follows_settle key chain
  unfold condense Resolution.condense
  rw [engine.operator_eq]
  -- the operator that was built is that of the kind, with the sink of the engine
  unfold plainOperator at hsettle ⊢
  split
  · exact Attempt.follows_pure _
  · cases hkind : engine.kind with
    | none =>
      -- without an operator nothing is merged, and so nothing counted
      exact (Attempt.follows_report (ticker?_eq_none rfl)).bind fun _ => Attempt.follows_pure _
    | some kind =>
      rw [hkind] at hsettle
      have hbuilt := kind.follows_build engine.sink
      dsimp only [Option.map_some]
      rw [hbuilt.mergesOnFlush]
      split
      · exact hsettle.bind fun record => Attempt.follows_pure [record]
      · -- a flush above other runs keeps one operand only if the operator could merge them
        split
        · refine (Attempt.follows_lift (follows_partially hbuilt key _)).bind fun merged => ?_
          cases merged <;> exact Attempt.follows_pure _
        · exact Attempt.follows_pure _

theorem follows_shorten {kind : OperatorKind} (hkind : engine.kind = some kind) (key : Bytes)
    (chain : Chain) :
    Attempt.Follows engine.ticker? (engine.shorten (kind.build engine.sink) key chain)
      (Resolution.shorten kind.operator key chain) := by
  have hsettle : Attempt.Follows engine.ticker? (engine.settle key chain) _ :=
    follows_settle key chain
  unfold plainOperator at hsettle
  rw [hkind] at hsettle
  unfold shorten Resolution.shorten
  split
  · exact hsettle.map some
  · exact (Attempt.follows_lift (follows_partially (kind.follows_build _) key _)).bind fun _ =>
      Attempt.follows_pure _

theorem follows_condenseAll (bottommost : Bool) (chains : KeyMap Chain) :
    Attempt.Follows engine.ticker? (engine.condenseAll bottommost chains)
      (Layered.condenseAll engine.plainOperator bottommost chains) :=
  Attempt.Follows.mapM fun entry _ =>
    (follows_condense entry.1 entry.2 bottommost).bind fun _ => Attempt.follows_pure _

/-! ### Its calls -/

variable (layers : Layers)

/-- A chain is shortened and put in place as without a sink. -/
theorem follows_enforceLimit (key : Bytes) :
    (engine.enforceLimit key).Follows engine.ticker? engine.unmetered (Layered.enforceLimit key)
      layers := by
  refine Call.Follows.read_bind ?_
  dsimp only [unmetered, plainOperator]
  rw [engine.operator_eq]
  cases hkind : engine.kind with
  | none => exact ⟨layers, Call.followsTo_pure ()⟩
  | some kind =>
    dsimp only [Option.map_some]
    split
    · exact ⟨layers, Call.followsTo_pure ()⟩
    · -- that the limit is reached is reported, but only a chain that gets shorter is counted
      refine (Call.followsTo_report (ticker?_eq_none rfl)).bind fun _ => ?_
      refine (Call.followsTo_lift (follows_shorten hkind key _)).bind fun shortened => ?_
      cases shortened with
      | none => exact ⟨layers, Call.followsTo_pure ()⟩
      | some shortened =>
        refine Call.Follows.counted rfl ⟨_, Call.followsTo_set ?_⟩
        dsimp only [unmetered, plainOperator]
        rw [hkind]
        rfl

theorem follows_write (batch : Batch) :
    (engine.write batch).Follows engine.ticker? engine.unmetered (Layered.write batch) layers := by
  have hpushed : Call.FollowsTo engine.ticker? engine.unmetered
      (Supplied.change fun layers : Layers =>
        { layers with memtable := batch.foldl Layer.push layers.memtable })
      (modify fun engine : Layered =>
        { engine with memtable := batch.foldl Layer.push engine.memtable }) layers _ :=
    Call.followsTo_modify rfl
  exact hpushed.bind fun _ =>
    Call.follows_forM batch.mergedKeys (fun key layers => follows_enforceLimit layers key) _

theorem follows_flush :
    engine.flush.Follows engine.ticker? engine.unmetered Layered.flush layers := by
  refine Call.Follows.read_bind ?_
  dsimp only [unmetered]
  split
  · exact ⟨layers, Call.followsTo_pure ()⟩
  · refine (Call.followsTo_set rfl).bind fun _ => ?_
    refine (Call.followsTo_lift (follows_condenseAll false _)).bind fun run => ?_
    exact ⟨_, Call.followsTo_counted_after rfl rfl⟩

/-- A compaction goes on from the layers that its flush has left. -/
theorem follows_compact :
    engine.compact.Follows engine.ticker? engine.unmetered Layered.compact layers := by
  refine (follows_flush layers).bind fun _ flushed => ?_
  refine Call.Follows.read_bind ?_
  refine (Call.followsTo_lift (follows_condenseAll true _)).bind fun kept => ?_
  exact ⟨_, Call.followsTo_counted_after rfl rfl⟩

theorem follows_find? (key : Bytes) :
    Attempt.Follows engine.ticker? (engine.find? layers key)
      ((engine.unmetered layers).find? key) := follows_read key _

theorem follows_entries :
    Attempt.Follows engine.ticker? (engine.entries layers) (engine.unmetered layers).entries := by
  refine Attempt.Follows.bind (Attempt.Follows.mapM fun key _ => ?_) fun found =>
    Attempt.follows_pure _
  exact (follows_find? layers key).bind fun value => Attempt.follows_pure _

end Layered.Metered

/-! ### Engines and refusals -/

/-- Each call of the engine follows that of the plain engine, from every state. -/
structure Engine.Follows {τ σ : Type} (view : Engine.Event → Option Ticker) (embed : τ → σ)
    (engine : Engine (Supplied τ)) (plain : Engine σ) : Prop where
  put : ∀ key value state, (engine.put key value).Follows view embed (plain.put key value) state
  get : ∀ key state, (engine.get key).Follows view embed (plain.get key) state
  delete : ∀ key state, (engine.delete key).Follows view embed (plain.delete key) state
  merge : ∀ key operand state,
    (engine.merge key operand).Follows view embed (plain.merge key operand) state
  write : ∀ batch state, (engine.write batch).Follows view embed (plain.write batch) state
  flush : ∀ state, engine.flush.Follows view embed plain.flush state
  compact : ∀ state, engine.compact.Follows view embed plain.compact state
  dump : ∀ state, engine.dump.Follows view embed plain.dump state

/-- The layered engine with a sink, from whatever layers it is called. -/
theorem Layered.Metered.follows (engine : Layered.Metered) :
    engine.engine.Follows engine.ticker? engine.unmetered Layered.engine where
  put key value layers := follows_write layers [.put key value]
  get key layers := ⟨layers, Call.followsTo_inspect (fun layers => engine.find? layers key)
    (fun plain : Layered => plain.find? key) (follows_find? layers key)⟩
  delete key layers := follows_write layers [.delete key]
  merge key operand layers := follows_write layers [.merge key operand]
  write batch layers := follows_write layers batch
  flush layers := follows_flush layers
  compact layers := follows_compact layers
  dump layers :=
    ⟨layers, Call.followsTo_inspect engine.entries Layered.entries (follows_entries layers)⟩

/-- Without its sink, too, an engine with other layers is another engine. -/
theorem Layered.Metered.unmetered_injective (engine : Layered.Metered) :
    Function.Injective engine.unmetered :=
  fun _ _ h => congrArg Layered.toLayers h

section

variable {τ σ : Type} {view : Engine.Event → Option Ticker} {embed : τ → σ}
  {engine : Engine (Supplied τ)} {plain : Engine σ}

/-- A refused call fails before it reaches the engine, and so before anything is counted. -/
theorem Engine.Refusals.follows_guarding {α : Type} (refusals : Refusals) (method : Method)
    (key : Option Bytes) {call : Call Event (Supplied τ) α} {plainCall : Call Event σ α} {state : τ}
    (h : call.Follows view embed plainCall state) :
    (refusals.guarding method key call).Follows view embed
      (refusals.guarding method key plainCall) state := by
  unfold guarding
  split
  · exact ⟨state, Call.followsTo_throw _⟩
  · exact h

theorem Engine.Follows.refusing (h : engine.Follows view embed plain) (refusals : Refusals) :
    (engine.refusing refusals).Follows view embed (plain.refusing refusals) where
  put key value state := refusals.follows_guarding .put key (h.put key value state)
  get key state := refusals.follows_guarding .get key (h.get key state)
  delete key state := refusals.follows_guarding .delete key (h.delete key state)
  merge key operand state := refusals.follows_guarding .merge key (h.merge key operand state)
  write batch state := refusals.follows_guarding .write none (h.write batch state)
  flush state := refusals.follows_guarding .flush none (h.flush state)
  compact state := refusals.follows_guarding .compact none (h.compact state)
  dump state := refusals.follows_guarding .dump none (h.dump state)

end

/-! ### Counters -/

namespace Counters.Metered

variable {τ σ : Type} {embed : τ → σ} {counters : Counters.Metered τ} {plain : Counters σ}
  {meter : Meter}

/-- The counters are the plain ones but for the sinks, and the meter shows which parts have one:
the counters themselves, and the engine that they are in. -/
structure Shows (meter : Meter) (embed : τ → σ) (counters : Counters.Metered τ)
    (plain : Counters σ) : Prop where
  /-- Absent counters read alike. -/
  default_eq : counters.default = plain.default
  /-- Counters are added to alike. -/
  strategy_eq : counters.strategy = plain.strategy
  /-- The counters have a sink if they are metered. -/
  sink_eq : meter.counters = counters.sink.isSome
  /-- The engine counts if it is metered. -/
  engine : counters.engine.Follows (fun event => meter.ticker? (.engine event)) embed plain.engine

/-- A call on the engine, with its failure passed on. -/
theorem follows_issue {α : Type} {call : Call Engine.Event (Supplied τ) α}
    {plainCall : Call Engine.Event σ α} {state : τ} (action : Action) (key : Bytes)
    (h : call.Follows (fun event => meter.ticker? (.engine event)) embed plainCall state) :
    (issue action key call).Follows meter.ticker? embed (issue action key plainCall) state := by
  refine h.relabel.caught.bind fun result after => ?_
  cases result with
  | ok value => exact ⟨after, Call.followsTo_pure value⟩
  | error failure =>
    refine (Call.followsTo_report ?_).bind fun _ => ⟨after, Call.followsTo_throw failure⟩
    exact ite_self none

/-- A value that cannot be read was read all the same, so nothing more is counted. -/
theorem follows_decode {counters : Counters (Supplied τ)}
    (h : counters.default = plain.default) (key : Bytes) (found : Option Bytes) (state : τ) :
    (counters.decode key found).Follows meter.ticker? embed (plain.decode key found) state := by
  cases found with
  | none =>
    unfold Counters.decode
    rw [h]
    exact ⟨state, Call.followsTo_pure plain.default⟩
  | some bytes =>
    unfold Counters.decode
    dsimp only
    cases Counter.decode? bytes with
    | some value => exact ⟨state, Call.followsTo_pure value⟩
    | none =>
      refine (Call.followsTo_report ?_).bind fun _ => ⟨state, Call.followsTo_throw _⟩
      exact ite_self none

variable (h : Shows meter embed counters plain)
include h

theorem Shows.follows_set (key : Bytes) (value : UInt64) (state : τ) :
    (counters.set key value).Follows meter.ticker? embed (plain.set key value) state := by
  refine Call.Follows.counted ?_ (follows_issue .set key (h.engine.put key _ state))
  rw [← h.sink_eq]
  rfl

theorem Shows.follows_get (key : Bytes) (state : τ) :
    (counters.get key).Follows meter.ticker? embed (plain.get key) state := by
  refine Call.Follows.counted ?_ ?_
  · rw [← h.sink_eq]
    rfl
  · exact (follows_issue .get key (h.engine.get key state)).bind fun found after =>
      follows_decode h.default_eq key found after

theorem Shows.follows_remove (key : Bytes) (state : τ) :
    (counters.remove key).Follows meter.ticker? embed (plain.remove key) state := by
  refine Call.Follows.counted ?_ (follows_issue .remove key (h.engine.delete key state))
  rw [← h.sink_eq]
  rfl

/-- An add counts what it issues: a read and a write, or one merge. -/
theorem Shows.follows_add (key : Bytes) (delta : UInt64) (state : τ) :
    (counters.add key delta).Follows meter.ticker? embed (plain.add key delta) state := by
  unfold Counters.Metered.add Counters.add
  rw [h.strategy_eq]
  cases plain.strategy with
  | readModifyWrite =>
    exact (h.follows_get key state).bind fun base after => h.follows_set key (base + delta) after
  | merge =>
    refine Call.Follows.counted ?_ (follows_issue .add key (h.engine.merge key _ state))
    rw [← h.sink_eq]
    rfl

end Counters.Metered

/-! ### Workloads -/

namespace Workload

variable {τ σ : Type} {embed : τ → σ} {meter : Meter}
  {addTo : Bytes → UInt64 → Call Counters.Event (Supplied τ) Unit}
  {plainAdd : Bytes → UInt64 → Call Counters.Event σ Unit}

/-- The ticker that an event of a workload raises: that of what the counters report. -/
def ticker? (meter : Meter) (event : Event) : Option Ticker := event.ofCounters?.bind meter.ticker?

/-- A worker goes on in the same way after each add, whether it succeeded or failed. -/
theorem follows_issueAdds
    (h : ∀ key delta state, (addTo key delta).Follows meter.ticker? embed (plainAdd key delta) state)
    (config : Config) (worker remaining index : Nat) (source : KeySource) (total : Report)
    (state : τ) :
    (issueAdds addTo config worker remaining index source total).Follows (ticker? meter) embed
      (issueAdds plainAdd config worker remaining index source total) state := by
  induction remaining generalizing index source total state with
  | zero => exact ⟨state, Call.followsTo_pure _⟩
  | succ remaining ih =>
    have hadd : Call.Follows (ticker? meter) embed
        ((addTo (nextAdd config source).1.key (nextAdd config source).1.delta).relabel
          Event.counters)
        ((plainAdd (nextAdd config source).1.key (nextAdd config source).1.delta).relabel
          Event.counters) state :=
      Call.Follows.relabel (h _ _ state)
    -- an add that failed has counted what it did up to there, and the worker goes on from it
    refine hadd.caught.bind fun result after => ?_
    cases result with
    | ok done => exact ih _ _ _ after
    | error failure =>
      dsimp only
      split
      · exact ⟨after, Call.followsTo_pure _⟩
      · exact (Call.followsTo_report rfl).bind fun _ => ih _ _ _ after

theorem follows_runWorkers
    (h : ∀ key delta state, (addTo key delta).Follows meter.ticker? embed (plainAdd key delta) state)
    (config : Config) (remaining worker : Nat) (total : Report) (state : τ) :
    (runWorkers addTo config remaining worker total).Follows (ticker? meter) embed
      (runWorkers plainAdd config remaining worker total) state := by
  induction remaining generalizing worker total state with
  | zero => exact ⟨state, Call.followsTo_pure _⟩
  | succ remaining ih =>
    refine (follows_issueAdds h config worker _ 0 _ _ state).bind fun result after => ?_
    cases result with
    | ok report => exact ih (worker + 1) (total.join report) after
    | error error => exact ⟨after, Call.followsTo_pure _⟩

theorem follows_runWith
    (h : ∀ key delta state, (addTo key delta).Follows meter.ticker? embed (plainAdd key delta) state)
    (config : Config) (state : τ) :
    (runWith addTo config).Follows (ticker? meter) embed (runWith plainAdd config) state := by
  unfold runWith
  cases refusal? config with
  | some error => exact ⟨state, Call.followsTo_pure _⟩
  | none =>
    exact (Call.followsTo_report rfl).bind fun _ => follows_runWorkers h config _ 0 _ state

/-- A comparison only reads counters. -/
theorem Report.follows_mismatchesWith {read : Bytes → Call Counters.Event (Supplied τ) UInt64}
    {plainRead : Bytes → Call Counters.Event σ UInt64}
    (h : ∀ key state, (read key).Follows meter.ticker? embed (plainRead key) state)
    (report : Report) (base : UInt64) (state : τ) :
    (report.mismatchesWith read base).Follows meter.ticker? embed
      (report.mismatchesWith plainRead base) state := by
  refine (Call.follows_mapM report.expected (fun entry state => ?_) state).bind
    fun found after => ⟨after, Call.followsTo_pure _⟩
  exact (h entry.1 state).bind fun stored after => ⟨after, Call.followsTo_pure _⟩

end Workload
end LazyTally
