import LazyTally.Engine.Layered
import LazyTally.Proofs.Condensing

/-!
# Reorganising the layers

What each call of the layered engine does to the layers, said once.  With a total
operator every call succeeds, and what it does can be written down as a function of
the engine.  A flush, a compaction and the chain limit only reorganise: no reading
that the operator respects can tell that they happened.

## Main definitions

* `Layers.Ascending` — every layer is in key order.
* `Layered.flushed`, `Layered.compacted` — the engine after a flush or a compaction.
* `Layered.limited` — the engine after the chain limit was enforced on a key.
* `Layered.Limits` — what enforcing the chain limit can do.
* `Layered.SameTo` — two engines that some readings cannot tell apart.

## Main results

* `Layered.gives_flush`, `Layered.gives_compact` — flushing and compacting succeed.
* `Layered.history_flushed`, `Layered.history_compacted` — the histories afterwards.
* `Layered.sameTo_flushed`, `Layered.sameTo_compacted`, `Layered.Limits.sameTo` —
  reorganising goes unnoticed.
* `Layered.gives_write` — a batch adds its records, and then the limit is enforced.
-/

namespace LazyTally

/-! ### Layers in key order -/

/-- Every layer is in key order. -/
def Layers.Ascending (layers : Layers) : Prop :=
  KeyMap.Ascending layers.memtable ∧ ∀ run ∈ layers.runs, KeyMap.Ascending run

/-- The records of a key below the memtable, oldest first. -/
def Layers.runHistory (layers : Layers) (key : Bytes) : List Record :=
  layers.runs.flatMap fun run => run.records key

theorem Layers.history_eq (layers : Layers) (key : Bytes) :
    layers.history key = layers.runHistory key ++ layers.memtable.records key := by
  rw [history, all, List.flatMap_append, List.flatMap_singleton]
  rfl

namespace Layer

theorem records_nil (key : Bytes) : records [] key = [] := rfl

/-- A batch appends to every key its own records. -/
theorem records_foldl_push {layer : Layer} (h : KeyMap.Ascending layer) (batch : Batch)
    (key : Bytes) :
    (batch.foldl push layer).records key = layer.records key ++ Write.history batch key := by
  induction batch generalizing layer with
  | nil => rw [List.foldl_nil, Write.history_nil, List.append_nil]
  | cons write batch ih =>
    rw [List.foldl_cons, ih (ascending_push h write), records_push h, Write.history_cons]
    split
    · rw [List.append_assoc, List.singleton_append]
    · rfl

theorem ascending_foldl_push {layer : Layer} (h : KeyMap.Ascending layer) (batch : Batch) :
    KeyMap.Ascending (batch.foldl push layer) := by
  induction batch generalizing layer with
  | nil => exact h
  | cons write batch ih => exact ih (ascending_push h write)

/-- The layer with every chain condensed above other runs. -/
def condensed (layer : Layer) (operator : Option Operator) : Layer :=
  layer.map fun entry =>
    (entry.1, Resolution.condensed operator entry.1 (Chain.ofRecords entry.2) false)

/-- Each key has what is left of its own chain; an absent key still has nothing. -/
theorem records_condensed (layer : Layer) (operator : Option Operator) (key : Bytes) :
    (layer.condensed operator).records key =
      Resolution.condensed operator key (Chain.ofRecords (layer.records key)) false := by
  unfold records condensed
  rw [KeyMap.find?_map
    (fun key records => Resolution.condensed operator key (Chain.ofRecords records) false)]
  cases layer.find? key with
  | none => exact (Resolution.condensed_nil operator key false).symm
  | some records => rfl

theorem ascending_condensed {layer : Layer} (h : KeyMap.Ascending layer)
    (operator : Option Operator) : KeyMap.Ascending (layer.condensed operator) :=
  KeyMap.ascending_map
    (fun key records => Resolution.condensed operator key (Chain.ofRecords records) false) h

/-- A key that occurs in no layer has no records in them. -/
theorem flatMap_records_eq_nil {layers : List Layer} (h : ∀ layer ∈ layers, KeyMap.Ascending layer)
    {key : Bytes} (hkey : key ∉ Bytes.sortDistinct (layers.flatMap KeyMap.keys)) :
    layers.flatMap (fun layer => layer.records key) = [] := by
  rw [Bytes.mem_sortDistinct] at hkey
  refine List.flatMap_eq_nil_iff.mpr ?_
  intro layer hlayer
  cases hfind : layer.find? key with
  | none => rw [Layer.records, hfind]; rfl
  | some records =>
    have hmem : key ∈ layer.keys := (KeyMap.mem_keys_iff (h layer hlayer)).mpr ⟨records, hfind⟩
    exact absurd (List.mem_flatMap.mpr ⟨layer, hlayer, hmem⟩) hkey

end Layer

namespace Layered

open Engine (Event)

/-! ### Condensing a layer -/

theorem result_condenseAll {operator : Option Operator} (htotal : Resolution.Total operator)
    (bottommost : Bool) (chains : KeyMap Chain) :
    (condenseAll operator bottommost chains).result =
      .ok (chains.map fun entry =>
        (entry.1, Resolution.condensed operator entry.1 entry.2 bottommost)) := by
  refine Attempt.result_mapM fun entry _ => ?_
  rw [Attempt.result_bind_of_ok (Resolution.result_condense htotal _ _ _)]
  rfl

/-! ### Flushing -/

/-- The engine after a flush. -/
def flushed (engine : Layered) : Layered :=
  if engine.memtable.isEmpty then engine
  else { engine with
    memtable := []
    runs := engine.runs ++ [engine.memtable.condensed engine.operator] }

theorem gives_flush {engine : Layered} (htotal : Resolution.Total engine.operator) :
    flush.Gives engine () engine.flushed := by
  refine (Call.gives_get engine).bind ?_
  unfold flushed
  by_cases hempty : engine.memtable.isEmpty
  · rw [if_pos hempty, if_pos hempty]
    exact Call.gives_pure () engine
  · -- every chain of the memtable can be condensed, so the flush goes through
    have hcondense := result_condenseAll htotal false engine.memtable.chains
    have hlayer : (engine.memtable.chains.map fun entry =>
        (entry.1, Resolution.condensed engine.operator entry.1 entry.2 false)) =
          engine.memtable.condensed engine.operator := List.map_map
    rw [hlayer] at hcondense
    rw [if_neg hempty, if_neg hempty]
    exact (Call.gives_set _ engine).bind
      ((Call.gives_lift hcondense _).bind ((Call.gives_report _ _).bind (Call.gives_set _ _)))

theorem memtable_flushed (engine : Layered) : engine.flushed.memtable = [] := by
  unfold flushed
  split
  · next hempty => exact List.isEmpty_iff.mp hempty
  · rfl

theorem operator_flushed (engine : Layered) : engine.flushed.operator = engine.operator := by
  unfold flushed
  split <;> rfl

theorem limit_flushed (engine : Layered) : engine.flushed.limit = engine.limit := by
  unfold flushed
  split <;> rfl

/-- The runs keep their records, and the memtable what is left of its chains. -/
theorem history_flushed (engine : Layered) (key : Bytes) :
    engine.flushed.history key = engine.runHistory key ++
      Resolution.condensed engine.operator key
        (Chain.ofRecords (engine.memtable.records key)) false := by
  unfold flushed
  split
  · next hempty =>
    rw [Layers.history_eq, List.isEmpty_iff.mp hempty, Layer.records_nil,
      Resolution.condensed_nil]
  · rw [Layers.history_eq, ← Layer.records_condensed, Layer.records_nil, List.append_nil]
    show List.flatMap _ (engine.runs ++ [engine.memtable.condensed engine.operator]) = _
    rw [List.flatMap_append, List.flatMap_singleton]
    rfl

/-- After a flush there are the old runs, and what the memtable was condensed to. -/
theorem mem_or_eq_of_mem_runs_flushed {engine : Layered} {run : Layer}
    (h : run ∈ engine.flushed.runs) :
    run ∈ engine.runs ∨ run = engine.memtable.condensed engine.operator := by
  unfold flushed at h
  split at h
  · exact .inl h
  · exact (List.mem_append.mp h).imp_right List.mem_singleton.mp

theorem ascending_flushed {engine : Layered} (h : engine.Ascending) :
    engine.flushed.Ascending := by
  refine ⟨?_, fun run hrun => ?_⟩
  · rw [memtable_flushed]
    exact List.Pairwise.nil
  · rcases mem_or_eq_of_mem_runs_flushed hrun with hold | rfl
    · exact h.2 run hold
    · exact Layer.ascending_condensed h.1 engine.operator

/-! ### Compacting -/

/-- The records that a compaction of the runs leaves, key by key. -/
def bottom (engine : Layered) : Layer :=
  ((Bytes.sortDistinct (engine.runs.flatMap KeyMap.keys)).map fun key =>
    (key, Resolution.condensed engine.operator key (engine.chain key) true)).filter
      fun entry => !entry.2.isEmpty

/-- The engine after a compaction. -/
def compacted (engine : Layered) : Layered :=
  { engine.flushed with runs := bottomRuns engine.flushed.bottom }

theorem gives_compact {engine : Layered} (htotal : Resolution.Total engine.operator) :
    compact.Gives engine () engine.compacted := by
  -- the flush in front keeps the operator, so it is still total below
  have hcondense := result_condenseAll (engine.operator_flushed ▸ htotal) true
    ((Bytes.sortDistinct (engine.flushed.runs.flatMap KeyMap.keys)).map fun key =>
      (key, engine.flushed.chain key))
  rw [List.map_map] at hcondense
  exact (gives_flush htotal).bind ((Call.gives_get _).bind ((Call.gives_lift hcondense _).bind
    ((Call.gives_report _ _).bind (Call.gives_set _ _))))

theorem ascending_bottom (engine : Layered) : KeyMap.Ascending engine.bottom :=
  KeyMap.ascending_filter _
    (KeyMap.ascending_map_keys _ (Bytes.pairwise_sortDistinct _))

/-- A bottom run is the bottom, and holds something. -/
theorem eq_of_mem_bottomRuns {bottom run : Layer} (h : run ∈ bottomRuns bottom) :
    run = bottom ∧ run ≠ [] := by
  unfold bottomRuns at h
  split at h
  · exact nomatch h
  · next hsome =>
    obtain rfl := List.mem_singleton.mp h
    exact ⟨rfl, fun hnil => hsome (List.isEmpty_iff.mpr hnil)⟩

theorem runHistory_eq_nil {layers : Layers} (h : layers.Ascending) {key : Bytes}
    (hkey : key ∉ Bytes.sortDistinct (layers.runs.flatMap KeyMap.keys)) :
    layers.runHistory key = [] := Layer.flatMap_records_eq_nil h.2 hkey

/-- At the bottom each key has what is left of its chain, unless that is nothing. -/
theorem find?_bottom {engine : Layered} (h : engine.Ascending) (hmem : engine.memtable = [])
    (key : Bytes) :
    engine.bottom.find? key =
      (some (Resolution.condensed engine.operator key (engine.chain key) true)).filter
        fun records => !records.isEmpty := by
  rw [bottom, KeyMap.find?_filter _
    (KeyMap.ascending_map_keys _ (Bytes.pairwise_sortDistinct _)),
    KeyMap.find?_map_keys _ (Bytes.pairwise_sortDistinct _)]
  split
  · rfl
  · next hkey =>
    -- a key that occurs in no run has an empty chain, of which nothing is left
    have hnil : engine.chain key = Chain.ofRecords [] := by
      rw [Layers.chain, Layers.history_eq, runHistory_eq_nil h hkey, hmem]
      rfl
    rw [hnil, Resolution.condensed_nil]
    rfl

theorem records_bottom {engine : Layered} (h : engine.Ascending) (hmem : engine.memtable = [])
    (key : Bytes) :
    engine.bottom.records key =
      Resolution.condensed engine.operator key (engine.chain key) true := by
  rw [Layer.records, find?_bottom h hmem]
  cases Resolution.condensed engine.operator key (engine.chain key) true <;> rfl

theorem memtable_compacted (engine : Layered) : engine.compacted.memtable = [] :=
  memtable_flushed engine

/-- After a compaction each key has what is left of its whole history. -/
theorem history_compacted {engine : Layered} (h : engine.Ascending) (key : Bytes) :
    engine.compacted.history key =
      Resolution.condensed engine.flushed.operator key (engine.flushed.chain key) true := by
  rw [← records_bottom (ascending_flushed h) (memtable_flushed engine), Layers.history_eq,
    memtable_compacted, Layer.records_nil, List.append_nil]
  show (bottomRuns engine.flushed.bottom).flatMap _ = _
  unfold bottomRuns
  split
  · next hempty => rw [List.isEmpty_iff.mp hempty]; rfl
  · exact List.flatMap_singleton ..

theorem ascending_compacted (engine : Layered) : engine.compacted.Ascending := by
  refine ⟨?_, ?_⟩
  · rw [memtable_compacted]
    exact List.Pairwise.nil
  · intro run hrun
    obtain ⟨rfl, -⟩ := eq_of_mem_bottomRuns hrun
    exact ascending_bottom engine.flushed

/-! ### Enforcing the chain limit -/

/-- The engine after the chain limit was enforced on a key. -/
def limited (engine : Layered) (key : Bytes) : Layered :=
  match Resolution.replacement? engine.operator engine.limit key
      (Chain.ofRecords (engine.memtable.records key)) with
  | none => engine
  | some record => { engine with memtable := KeyMap.insert engine.memtable key [record] }

theorem gives_limited {engine : Layered} (htotal : Resolution.Total engine.operator)
    (key : Bytes) : (enforceLimit key).Gives engine () (engine.limited key) := by
  -- the call reads the engine first, so only what comes after that is open
  refine (Call.gives_get engine).bind ?_
  unfold limited
  dsimp only
  rcases Resolution.replacement?_cases htotal engine.limit key
      (Chain.ofRecords (engine.memtable.records key)) with
    ⟨hstays, hwithin⟩ | ⟨op, hop, hpos, hlong, hresult, -⟩
  · rw [hstays]
    cases hop : engine.operator with
    | none => exact Call.gives_pure () engine
    | some op =>
      have hwithin := hwithin.resolve_left (by simp [hop])
      dsimp only
      rw [if_pos hwithin]
      exact Call.gives_pure () engine
  · have hbeyond : ¬(engine.limit = 0 ∨
        (Chain.ofRecords (engine.memtable.records key)).operands.length ≤ engine.limit.toNat) := by
      simp [hpos, hlong]
    rw [hop] at hresult ⊢
    dsimp only
    rw [if_neg hbeyond]
    refine (Call.gives_report _ _).bind ((Call.gives_lift hresult _).bind ?_)
    cases Resolution.replacement? (some op) engine.limit key
        (Chain.ofRecords (engine.memtable.records key)) with
    | none => exact Call.gives_pure () engine
    | some record => exact (Call.gives_report _ _).bind (Call.gives_set _ _)

/-- What enforcing the chain limit on a key can do. -/
inductive Limits (engine : Layered) (key : Bytes) : Layered → Prop
  /-- There is nothing to enforce. -/
  | within (h : engine.operator = none ∨ engine.limit = 0 ∨
      (Chain.ofRecords (engine.memtable.records key)).operands.length ≤ engine.limit.toNat) :
      Limits engine key engine
  /-- The operator keeps the operands. -/
  | kept {op : Operator} (hop : engine.operator = some op)
      (hbase : (Chain.ofRecords (engine.memtable.records key)).base = none)
      (hnone : (Resolution.partially op key
        (Chain.ofRecords (engine.memtable.records key)).operands).value = none) :
      Limits engine key engine
  /-- The chain is replaced by one record. -/
  | shortened {op : Operator} {record : Record} (hop : engine.operator = some op)
      (hlong : engine.limit.toNat <
        (Chain.ofRecords (engine.memtable.records key)).operands.length)
      (h : Resolution.Shortens op key (Chain.ofRecords (engine.memtable.records key)) record) :
      Limits engine key
        { engine with memtable := KeyMap.insert engine.memtable key [record] }

theorem limits_limited {engine : Layered} (htotal : Resolution.Total engine.operator)
    (key : Bytes) : Limits engine key (engine.limited key) := by
  unfold limited
  rcases Resolution.replacement?_cases htotal engine.limit key
      (Chain.ofRecords (engine.memtable.records key)) with
    ⟨hstays, hwithin⟩ |
    ⟨op, hop, -, hlong, -, ⟨record, hrecord, hshort⟩ | ⟨hstays, hbase, hnone⟩⟩
  · rw [hstays]
    exact .within hwithin
  · rw [hrecord]
    exact .shortened hop hlong hshort
  · rw [hstays]
    exact .kept hop hbase hnone

theorem gives_enforceLimit {engine : Layered} (htotal : Resolution.Total engine.operator)
    (key : Bytes) :
    ∃ after, (enforceLimit key).Gives engine () after ∧ Limits engine key after :=
  ⟨engine.limited key, gives_limited htotal key, limits_limited htotal key⟩

/-- Enforcing the limit on one key after the other. -/
inductive LimitsAll : List Bytes → Layered → Layered → Prop
  | nil (engine : Layered) : LimitsAll [] engine engine
  | cons {key : Bytes} {keys : List Bytes} {engine middle after : Layered}
      (h : Limits engine key middle) (hrest : LimitsAll keys middle after) :
      LimitsAll (key :: keys) engine after

theorem Limits.operator_eq {engine after : Layered} {key : Bytes} (h : Limits engine key after) :
    after.operator = engine.operator := by
  cases h <;> rfl

theorem gives_forM_enforceLimit {engine : Layered} (htotal : Resolution.Total engine.operator)
    (keys : List Bytes) :
    ∃ after, Call.Gives (keys.forM enforceLimit) engine () after ∧ LimitsAll keys engine after := by
  induction keys generalizing engine with
  | nil => exact ⟨engine, Call.gives_pure () engine, .nil engine⟩
  | cons key keys ih =>
    obtain ⟨middle, hgives, hlimits⟩ := gives_enforceLimit htotal key
    obtain ⟨after, hrest, hall⟩ := ih (hlimits.operator_eq ▸ htotal)
    exact ⟨after, hgives.bind hrest, .cons hlimits hall⟩

/-! ### Writing -/

/-- The engine with the records of a batch in its memtable. -/
def pushed (engine : Layered) (batch : Batch) : Layered :=
  { engine with memtable := batch.foldl Layer.push engine.memtable }

theorem gives_write {engine : Layered} (htotal : Resolution.Total engine.operator)
    (batch : Batch) :
    ∃ after, (write batch).Gives engine () after ∧
      LimitsAll batch.mergedKeys (engine.pushed batch) after := by
  have hpushed : Resolution.Total (engine.pushed batch).operator := htotal
  obtain ⟨after, hgives, hlimits⟩ := gives_forM_enforceLimit hpushed batch.mergedKeys
  exact ⟨after, (Call.gives_modify _ engine).bind hgives, hlimits⟩

theorem history_pushed {engine : Layered} (h : engine.Ascending) (batch : Batch) (key : Bytes) :
    (engine.pushed batch).history key = engine.history key ++ Write.history batch key := by
  rw [Layers.history_eq, Layers.history_eq, List.append_assoc,
    ← Layer.records_foldl_push h.1 batch key]
  rfl

theorem ascending_pushed {engine : Layered} (h : engine.Ascending) (batch : Batch) :
    (engine.pushed batch).Ascending := ⟨Layer.ascending_foldl_push h.1 batch, h.2⟩

/-! ### What readings can tell -/

/-- The second engine comes from the first, and the readings cannot tell them apart. -/
structure SameTo {α : Type} (readings : Bytes → Reading α) (engine after : Layered) : Prop where
  /-- The operator is the same. -/
  operator : after.operator = engine.operator
  /-- The mark of the store is the same. -/
  identity : after.identity = engine.identity
  /-- The limit is the same. -/
  limit : after.limit = engine.limit
  /-- The layers stay in key order. -/
  ascending : engine.Ascending → after.Ascending
  /-- Every history looks the same. -/
  meaning : engine.Ascending → ∀ key,
    (readings key).meaning (after.history key) = (readings key).meaning (engine.history key)

section

variable {α : Type} {readings : Bytes → Reading α} {engine middle after : Layered}

theorem SameTo.refl (engine : Layered) : SameTo readings engine engine :=
  ⟨rfl, rfl, rfl, id, fun _ _ => rfl⟩

theorem SameTo.trans (h : SameTo readings engine middle) (hnext : SameTo readings middle after) :
    SameTo readings engine after where
  operator := hnext.operator.trans h.operator
  identity := hnext.identity.trans h.identity
  limit := hnext.limit.trans h.limit
  ascending hasc := hnext.ascending (h.ascending hasc)
  meaning hasc key := (hnext.meaning (h.ascending hasc) key).trans (h.meaning hasc key)

theorem sameTo_flushed (hop : Resolution.Respects engine.operator readings)
    (htotal : Resolution.Total engine.operator) : SameTo readings engine engine.flushed := by
  refine ⟨operator_flushed engine, ?_, limit_flushed engine, ascending_flushed, ?_⟩
  · unfold flushed; split <;> rfl
  · intro _ key
    -- the runs stay as they are, and only the memtable's part of the history is condensed
    have hcondenses := Resolution.condenses_condensed htotal key
      (Chain.ofRecords (engine.memtable.records key)) false
    rw [history_flushed, Layers.history_eq, Reading.meaning, Reading.meaning,
      Reading.replay_append, Reading.replay_append,
      hcondenses.replay hop fun hbottom => absurd hbottom Bool.false_ne_true,
      ← Reading.replay_eq_after]

theorem sameTo_compacted (hop : Resolution.Respects engine.operator readings)
    (htotal : Resolution.Total engine.operator) : SameTo readings engine engine.compacted := by
  have hflushed := sameTo_flushed hop htotal
  refine ⟨hflushed.operator, hflushed.identity, hflushed.limit,
    fun _ => ascending_compacted engine, ?_⟩
  intro hasc key
  -- what is left of a chain at the bottom stands on nothing, as the history itself does
  have hcondenses := Resolution.condenses_condensed (hflushed.operator ▸ htotal) key
    (engine.flushed.chain key) true
  rw [history_compacted hasc, ← hflushed.meaning hasc key, Reading.meaning, Reading.meaning,
    hcondenses.replay (hflushed.operator ▸ hop) fun _ => rfl, Layers.chain,
    ← Reading.replay_eq_after]

theorem Limits.sameTo (hop : Resolution.Respects engine.operator readings) {key : Bytes}
    (h : Limits engine key after) : SameTo readings engine after := by
  cases h with
  | within h => exact SameTo.refl engine
  | kept hsome hbase hnone => exact SameTo.refl engine
  | shortened hsome hlong hshort =>
    refine ⟨rfl, rfl, rfl, fun hasc => ⟨KeyMap.ascending_insert hasc.1 _ _, hasc.2⟩, ?_⟩
    intro hasc k
    rw [Layers.history_eq, Layers.history_eq, Reading.meaning, Reading.meaning,
      Reading.replay_append, Reading.replay_append]
    show (readings k).replay ((readings k).replay _ (engine.runHistory k))
      (Layer.records (KeyMap.insert engine.memtable key _) k) = _
    rw [Layer.records, KeyMap.find?_insert hasc.1]
    by_cases heq : key = k
    · -- the chain of the key in the memtable became one record that looks like it
      subst heq
      have hne : (Chain.ofRecords (engine.memtable.records key)).operands ≠ [] :=
        List.ne_nil_of_length_pos (Nat.zero_lt_of_lt hlong)
      rw [if_pos rfl, Reading.replay_eq_after _ _ (engine.memtable.records key)]
      exact hshort.replay (hop _ hsome key) hne _
    · rw [if_neg heq]
      rfl

theorem LimitsAll.sameTo {keys : List Bytes} (h : LimitsAll keys engine after)
    (hop : Resolution.Respects engine.operator readings) : SameTo readings engine after := by
  induction h with
  | nil engine => exact SameTo.refl engine
  | cons h hrest ih => exact (h.sameTo hop).trans (ih (h.operator_eq ▸ hop))

end
end Layered
end LazyTally
