import LazyTally.Proofs.ChainLength
import LazyTally.Proofs.Dumping
import LazyTally.Proofs.Flushing
import LazyTally.Proofs.Metering

/-!
# How often operands are resolved

An operator is asked to resolve the operands of a key where they are needed and nowhere else.  A
read asks once if operands wait, a dump once for each key with operands that wait, and a flush once
for each key of which the memtable alone shows what they stand on.  A compaction begins with a
flush, and asks for the other keys what the flush did not: so it asks once for each key with
operands that wait, and never twice.  A batch asks for the keys that it brings beyond the limit.

## Main definitions

* `Engine.Event.work?` — the ticker of an event, if it is work of the engine.
* `Layers.waiting`, `Layers.based` — the keys with operands that wait, and those of which the
  memtable holds a put or a delete.
* `Layered.overlong` — the keys that a batch brings beyond the limit.
* `Layered.limitWork` — what enforcing the limit on a key raises.

## Main results

* `Layered.OpenUnder.work_flush`, `Layered.OpenUnder.work_compact`,
  `Layered.OpenUnder.work_write` — what the calls that change the layers raise, in order.
* `Layered.OpenUnder.encard_waiting` — a flush takes its part of the keys that wait.
* `Layered.Reachable.work_accounted` — how often each call raises the tickers of merges and flushes.
-/

namespace LazyTally

/-- The ticker of an event, if it is work of the engine and not a report of its operator. -/
def Engine.Event.work? : Engine.Event → Option Ticker
  | .operator _ => none
  | event => event.ticker?

/-- The ticker of an event, if the engine reported it and it is work of the engine. -/
def Counters.Event.work? : Counters.Event → Option Ticker
  | .engine event => event.work?
  | .reading _ | .writing _ | .failed _ _ _ | .malformed _ _ => none

namespace Resolution

open Engine (Event)

variable {op : Operator} {key : Bytes}

/-! ### Resolving a chain -/

theorem work_relabel {α : Type} (merged : Traced Operator.Event α) :
    (merged.relabel Event.operator).tickers Event.work? = [] := by
  rw [Traced.tickers_relabel]
  exact Traced.tickers_eq_nil (fun _ => rfl) merged

theorem work_full {existing : Option Bytes} {operands : List Bytes} {value : Bytes}
    (h : (op.fullMerge key existing operands).value = some value) :
    (full (some op) key existing operands).tickers Event.work? = [.fullMerge] := by
  have hreport : (report (Event.fullMerge key) : Attempt Event Unit).result = .ok () := rfl
  have hmerged : (liftM ((op.fullMerge key existing operands).relabel Event.operator) :
      Attempt Event (Option Bytes)).result = .ok (some value) := congrArg Except.ok h
  rw [full, Attempt.tickers_bind_of_ok hreport, Attempt.tickers_bind_of_ok hmerged,
    Attempt.tickers_lift, work_relabel]
  rfl

/-- An answer of the operator is reported. -/
theorem work_reporting {answer : Traced Event (Option Bytes)} {merged : Bytes}
    (hquiet : answer.tickers Event.work? = []) (h : answer.value = some merged) :
    Traced.tickers Event.work? (do
      let merged ← answer
      if merged.isSome then report (Event.partialMerge key)
      pure merged) = [.partialMerge] := by
  rw [Traced.tickers_bind, hquiet, h]
  rfl

theorem work_partially {operands : List Bytes} {merged : Bytes}
    (h : (partially op key operands).value = some merged) :
    (partially op key operands).tickers Event.work? = [.partialMerge] := by
  have hanswer := (value_reporting key _).symm.trans h
  exact work_reporting (work_relabel _) hanswer

/-- A read resolves a chain that has operands. -/
theorem work_read (htotal : op.Total) (key : Bytes) (chain : Chain) :
    (read (some op) key chain).tickers Event.work? =
      if 0 < chain.operands.length then [.fullMerge] else [] := by
  rw [read]
  by_cases hbare : chain.operands = []
  · simp [hbare]
  · obtain ⟨value, hvalue⟩ := htotal key chain.value? chain.operands hbare
    have hlong := List.length_pos_iff.mpr hbare
    rw [if_neg (by simpa using hbare), if_pos hlong, Attempt.tickers_map, work_full hvalue]

theorem work_settle (htotal : op.Total) (key : Bytes) {chain : Chain}
    (hne : chain.operands ≠ []) :
    (settle (some op) key chain).tickers Event.work? = [.fullMerge] := by
  obtain ⟨value, hvalue⟩ := htotal key chain.value? chain.operands hne
  rw [settle, Attempt.tickers_map, work_full hvalue]

/-- A flush or a compaction resolves a chain that has operands over something it knows. -/
theorem work_condense (kind : OperatorKind) (key : Bytes) (chain : Chain) (bottommost : Bool) :
    (condense (some kind.operator) key chain bottommost).tickers Event.work? =
      if (chain.base.isSome ∨ bottommost) ∧ 0 < chain.operands.length then [.fullMerge]
      else [] := by
  unfold condense
  by_cases hbare : chain.operands = []
  · simp [hbare]
  · have hlong := List.length_pos_iff.mpr hbare
    rw [if_neg (by simpa using hbare)]
    dsimp only
    by_cases hknown : chain.base.isSome ∨ bottommost
    · obtain ⟨value, hvalue⟩ := kind.total key chain.value? chain.operands hbare
      rw [if_pos (by simpa using hknown), if_pos ⟨hknown, hlong⟩,
        Attempt.tickers_bind_of_ok (result_settle hvalue), work_settle kind.total key hbare]
      rfl
    · -- neither kind merges on a flush, so unsettled operands are only kept
      have hkept : ¬kind.operator.mergesOnFlush chain.operands = true := by
        simp [kind.mergesOnFlush_eq_false]
      rw [if_neg (by simpa using hknown), if_neg hkept, if_neg fun h => hknown h.1]
      rfl

/-- What replaces a chain beyond its limit is a full merge over a put or a delete, and else a
partial merge. -/
theorem work_shorten (kind : OperatorKind) (key : Bytes) {chain : Chain}
    (h : 2 ≤ chain.operands.length) :
    (shorten kind.operator key chain).tickers Event.work? =
      if chain.base.isSome then [.fullMerge] else [.partialMerge] := by
  have hne : chain.operands ≠ [] := List.ne_nil_of_length_pos (by omega)
  unfold shorten
  by_cases hbase : chain.base.isSome
  · rw [if_pos hbase, if_pos hbase, Attempt.tickers_map, work_settle kind.total key hne]
  · obtain ⟨merged, hmerged⟩ := exists_partially kind key h
    have hlift : (liftM (partially kind.operator key chain.operands) :
        Attempt Event (Option Bytes)).result = .ok (some merged) := congrArg Except.ok hmerged
    rw [if_neg hbase, if_neg hbase, Attempt.tickers_bind_of_ok hlift, Attempt.tickers_lift,
      work_partially hmerged]
    rfl

end Resolution

/-! ### The keys that count -/

/-- There is a base if there is a put or a delete. -/
theorem Chain.isSome_base_iff {records : List Record} :
    (ofRecords records).base.isSome ↔ ∃ base : Base, base.record ∈ records := by
  rcases Record.operands_or_base records with ⟨operands, rfl⟩ | ⟨older, base, operands, rfl⟩
  · rw [ofRecords_map_merge]
    constructor
    · intro hsome
      cases hsome
    · rintro ⟨base, hmem⟩
      obtain ⟨operand, -, hsame⟩ := List.mem_map.mp hmem
      exact absurd hsame.symm (base.record_ne_merge operand)
  · rw [ofRecords_base]
    exact ⟨fun _ => ⟨base, by simp⟩, fun _ => rfl⟩

/-- The keys with operands that wait to be resolved. -/
def Layers.waiting (layers : Layers) : Set Bytes := {key | 0 < layers.pendingOperands key}

/-- The keys of which the memtable holds a put or a delete. -/
def Layers.based (layers : Layers) : Set Bytes :=
  {key | ∃ base : Base, base.record ∈ layers.memtable.records key}

theorem Layers.mem_based {layers : Layers} {key : Bytes} :
    key ∈ layers.based ↔ (Chain.ofRecords (layers.memtable.records key)).base.isSome :=
  Chain.isSome_base_iff.symm

/-- The chains of a layer are those of its keys. -/
theorem Layer.chains_eq {layer : Layer} (h : KeyMap.Ascending layer) :
    layer.chains = layer.keys.map fun key => (key, Chain.ofRecords (layer.records key)) := by
  rw [chains, KeyMap.keys, List.map_map]
  refine List.map_congr_left ?_
  rintro ⟨key, records⟩ hmem
  have hfind := (KeyMap.find?_eq_some_iff h).mpr hmem
  simp [Layer.records, hfind]

/-- A key with records in a layer is one of its keys. -/
theorem Layer.mem_keys_of_records_ne_nil {layer : Layer} (h : KeyMap.Ascending layer) {key : Bytes}
    (hne : layer.records key ≠ []) : key ∈ layer.keys := by
  cases hfind : layer.find? key with
  | none =>
    apply absurd _ hne
    rw [Layer.records, hfind]
    rfl
  | some records => exact (KeyMap.mem_keys_iff h).mpr ⟨records, hfind⟩

namespace Layered

open Engine (Event)

/-- The distinct keys into which a batch merges operands and whose chains in the memtable are then
longer than the limit, if there is one. -/
def overlong (engine : Layered) (batch : Batch) : Set Bytes :=
  {key | (∃ operand, Write.merge key operand ∈ batch) ∧ engine.limit ≠ 0 ∧
    engine.limit.toNat < (engine.pushed batch).memtableOperands key}

variable {engine : Layered} {kind : OperatorKind}

/-! ### What the calls raise -/

theorem OpenUnder.work_find? (h : engine.OpenUnder (some kind)) (key : Bytes) :
    (engine.find? key).tickers Event.work? =
      if 0 < engine.pendingOperands key then [.fullMerge] else [] := by
  rw [find?, h.operator_eq]
  exact Resolution.work_read kind.total key (engine.chain key)

/-- A read resolves a key with operands that wait. -/
theorem OpenUnder.work_get (h : engine.OpenUnder (some kind)) (key : Bytes) :
    (Layered.engine.get key).tickers Event.work? engine =
      if 0 < engine.pendingOperands key then [.fullMerge] else [] :=
  (Call.tickers_inspect _ engine).trans (h.work_find? key)

/-- A dump resolves each key as a read does. -/
theorem OpenUnder.work_dump (h : engine.OpenUnder (some kind)) :
    Layered.engine.dump.tickers Event.work? engine =
      engine.keys.flatMap fun key =>
        if 0 < engine.pendingOperands key then [.fullMerge] else [] := by
  have hfind : ∀ key, (engine.find? key).result =
      .ok ((kind.operator.stepwise key).meaning (engine.history key)) := h.result_get
  have hentry : ∀ key, (engine.entry key).result = .ok _ :=
    fun key => Attempt.result_bind_of_ok (hfind key) _
  have hfound := Attempt.result_mapM (l := engine.keys) fun key _ => hentry key
  -- every entry can be found, so the work is that of all keys
  refine (Call.tickers_inspect _ engine).trans ?_
  refine (Attempt.tickers_bind_of_ok hfound _).trans ?_
  rw [Attempt.tickers_mapM fun key _ => ⟨_, hentry key⟩, Attempt.tickers_pure, List.append_nil]
  congr 1
  funext key
  rw [entry, Attempt.tickers_bind_of_ok (hfind key), h.work_find?, Attempt.tickers_pure,
    List.append_nil]

theorem work_condenseAll (kind : OperatorKind) (bottommost : Bool) (chains : KeyMap Chain) :
    (condenseAll (some kind.operator) bottommost chains).tickers Event.work? =
      chains.flatMap fun entry =>
        if (entry.2.base.isSome ∨ bottommost) ∧ 0 < entry.2.operands.length then [.fullMerge]
        else [] := by
  have htotal : Resolution.Total (some kind.operator) := fun _ h => Option.some.inj h ▸ kind.total
  have hentry := fun entry : Bytes × Chain =>
    Resolution.result_condense htotal entry.1 entry.2 bottommost
  rw [condenseAll,
    Attempt.tickers_mapM fun entry _ => ⟨_, Attempt.result_bind_of_ok (hentry entry) _⟩]
  congr 1
  funext entry
  rw [Attempt.tickers_bind_of_ok (hentry entry), Attempt.tickers_pure, List.append_nil,
    Resolution.work_condense]

/-- A flush resolves the keys of which the memtable shows what their operands stand on. -/
theorem OpenUnder.work_flush (h : engine.OpenUnder (some kind)) :
    flush.tickers Event.work? engine =
      if engine.memtable = [] then []
      else
        (engine.memtable.keys.flatMap fun key =>
          if (Chain.ofRecords (engine.memtable.records key)).base.isSome ∧
            0 < engine.memtableOperands key then [.fullMerge] else []) ++ [.flush] := by
  have hoperator : engine.operator = some kind.operator := h.operator_eq
  rw [flush, Call.tickers_get_bind]
  by_cases hempty : engine.memtable = []
  · rw [if_pos (by simpa using hempty), if_pos hempty, Call.tickers_pure]
  · -- each part of the flush succeeds, and only the resolution of the chains is work
    have hcondense := result_condenseAll h.total false engine.memtable.chains
    rw [if_neg (by simpa using hempty), if_neg hempty, (Call.gives_set _ engine).tickers_bind,
      (Call.gives_lift hcondense _).tickers_bind, (Call.gives_report _ _).tickers_bind,
      Call.tickers_set, List.nil_append, Call.tickers_lift, hoperator, work_condenseAll,
      Layer.chains_eq h.ascending.1, List.flatMap_map]
    congr 2
    funext key
    exact if_congr (by simp [Layers.memtableOperands]) rfl rfl

/-- A compaction flushes, and then resolves the keys of which operands still wait. -/
theorem OpenUnder.work_compact (h : engine.OpenUnder (some kind)) :
    compact.tickers Event.work? engine =
      flush.tickers Event.work? engine ++
        ((Bytes.sortDistinct (engine.flushed.runs.flatMap KeyMap.keys)).flatMap fun key =>
          if 0 < engine.flushed.pendingOperands key then [.fullMerge] else []) ++
            [.compaction] := by
  have hflushed := h.flushed
  have hcondense := result_condenseAll hflushed.total true
    ((Bytes.sortDistinct (engine.flushed.runs.flatMap KeyMap.keys)).map fun key =>
      (key, engine.flushed.chain key))
  -- the compaction goes on from the flushed engine
  rw [compact, (gives_flush h.total).tickers_bind, Call.tickers_get_bind,
    (Call.gives_lift hcondense _).tickers_bind, (Call.gives_report _ _).tickers_bind,
    Call.tickers_lift, hflushed.operator_eq]
  show _ ++ ((condenseAll (some kind.operator) true _).tickers Event.work? ++ _) = _
  rw [work_condenseAll, List.flatMap_map, List.append_assoc]
  congr 3
  funext key
  exact if_congr (by simp [Layers.pendingOperands]) rfl rfl

/-- What enforcing the limit on a key raises. -/
def limitWork (engine : Layered) (key : Bytes) : List Ticker :=
  if engine.limit ≠ 0 ∧ engine.limit.toNat < engine.memtableOperands key then
    [if (Chain.ofRecords (engine.memtable.records key)).base.isSome then .fullMerge
      else .partialMerge, .chainLimitMerge]
  else []

theorem OpenUnder.work_enforceLimit (h : engine.OpenUnder (some kind)) (key : Bytes) :
    (enforceLimit key).tickers Event.work? engine = engine.limitWork key := by
  rw [enforceLimit, Call.tickers_get_bind, h.operator_eq]
  show Call.tickers _ (if _ then _ else _) _ = _
  unfold limitWork Layers.memtableOperands
  generalize Chain.ofRecords (engine.memtable.records key) = chain
  by_cases hwithin : engine.limit = 0 ∨ chain.operands.length ≤ engine.limit.toNat
  · have hnot : ¬(engine.limit ≠ 0 ∧ engine.limit.toNat < chain.operands.length) := by
      rintro ⟨hpos, hlong⟩
      rcases hwithin with hzero | hshort
      · exact hpos hzero
      · omega
    rw [if_pos hwithin, if_neg hnot, Call.tickers_pure]
  · obtain ⟨hpos, hlong⟩ := not_or.mp hwithin
    have hlong : engine.limit.toNat < chain.operands.length := Nat.lt_of_not_le hlong
    have hone := one_le_toNat hpos
    have hne : chain.operands ≠ [] := List.ne_nil_of_length_pos (by omega)
    have htwo : 2 ≤ chain.operands.length := by omega
    rw [if_neg hwithin, if_pos ⟨hpos, hlong⟩, (Call.gives_report _ engine).tickers_bind]
    -- an operator on counters has a record for the chain
    have hshort : ∃ record, (Resolution.shorten kind.operator key chain).result =
        .ok (some record) := by
      rcases Resolution.shorten_cases kind.total key hne with
        ⟨record, hresult, -⟩ | ⟨-, -, hnone⟩
      · exact ⟨record, hresult⟩
      · obtain ⟨merged, hmerged⟩ := Resolution.exists_partially kind key htwo
        rw [hmerged] at hnone
        cases hnone
    obtain ⟨record, hresult⟩ := hshort
    rw [(Call.gives_lift hresult engine).tickers_bind, Call.tickers_lift,
      Resolution.work_shorten kind key htwo, (Call.gives_report _ engine).tickers_bind]
    by_cases hbase : chain.base.isSome
    · simp [Event.work?, Event.ticker?, hbase]
    · simp [Event.work?, Event.ticker?, hbase]

/-- Enforcing the limit on one key leaves the work on any other as it was. -/
theorem limitWork_limited (h : KeyMap.Ascending engine.memtable) {key other : Bytes}
    (hne : key ≠ other) : (engine.limited key).limitWork other = engine.limitWork other := by
  have hrecords := records_limited h key other
  rw [if_neg hne] at hrecords
  have hlimit : (engine.limited key).limit = engine.limit := by rw [limited_eq]
  unfold limitWork Layers.memtableOperands
  rw [hrecords, hlimit]

theorem OpenUnder.limited (h : engine.OpenUnder (some kind)) (key : Bytes) :
    (engine.limited key).OpenUnder (some kind) := by
  have hasc := ascending_limited h.ascending.1 key
  rw [limited_eq]
  exact ⟨h.operator_eq, h.identity_eq, hasc, h.ascending.2⟩

theorem OpenUnder.work_forM (h : engine.OpenUnder (some kind)) {keys : List Bytes}
    (hkeys : keys.Pairwise (· < ·)) :
    Call.tickers Event.work? (keys.forM enforceLimit) engine = keys.flatMap engine.limitWork := by
  induction keys generalizing engine with
  | nil => rfl
  | cons key keys ih =>
    obtain ⟨hfirst, hrest⟩ := List.pairwise_cons.mp hkeys
    show Call.tickers Event.work? (enforceLimit key >>= fun _ => keys.forM enforceLimit) engine = _
    rw [(gives_limited h.total key).tickers_bind, h.work_enforceLimit, ih (h.limited key) hrest,
      List.flatMap_cons]
    congr 1
    -- a key that comes later is not touched by the limit of an earlier one
    refine List.flatMap_congr ?_
    intro other hother
    apply limitWork_limited h.ascending.1
    intro heq
    exact List.lt_irrefl other (heq ▸ hfirst other hother)

/-- A batch enforces the limit on the keys that it merges operands into. -/
theorem OpenUnder.work_write (h : engine.OpenUnder (some kind)) (batch : Batch) :
    (write batch).tickers Event.work? engine =
      batch.mergedKeys.flatMap (engine.pushed batch).limitWork := by
  have hpushed : (engine.pushed batch).OpenUnder (some kind) :=
    ⟨h.operator_eq, h.identity_eq, ascending_pushed h.ascending batch⟩
  have hdistinct : batch.mergedKeys.Pairwise (· < ·) := Bytes.pairwise_sortDistinct _
  rw [write, (Call.gives_modify _ engine).tickers_bind]
  exact hpushed.work_forM hdistinct

/-! ### How many keys there are -/

/-- If the memtable holds a put or a delete of a key, only operands in the memtable wait. -/
theorem pendingOperands_of_based {layers : Layers} {key : Bytes} (h : key ∈ layers.based) :
    layers.pendingOperands key = layers.memtableOperands key := by
  obtain ⟨base, hbase⟩ := Option.isSome_iff_exists.mp (Layers.mem_based.mp h)
  rw [Layers.pendingOperands, Layers.chain, Layers.history_eq, Chain.ofRecords_append, hbase]
  rfl

/-- The keys with operands that wait are those that a flush resolves and those of which operands
still wait after it. -/
theorem OpenUnder.encard_waiting (h : engine.OpenUnder (some kind)) :
    engine.waiting.encard =
      {key | key ∈ engine.based ∧ 0 < engine.memtableOperands key}.encard +
        engine.flushed.waiting.encard := by
  -- the memtable of a key resolves it in the flush, or its operands still wait afterwards
  have hunion : engine.waiting =
      {key | key ∈ engine.based ∧ 0 < engine.memtableOperands key} ∪ engine.flushed.waiting := by
    ext key
    show 0 < engine.pendingOperands key ↔ (key ∈ engine.based ∧ 0 < engine.memtableOperands key) ∨
      0 < engine.flushed.pendingOperands key
    by_cases hbased : key ∈ engine.based
    · obtain ⟨base, hbase⟩ := hbased
      have hzero := h.pendingOperands_flushed_of_base hbase
      have hpending := pendingOperands_of_based ⟨base, hbase⟩
      rw [hzero, hpending]
      exact ⟨fun hlong => .inl ⟨⟨base, hbase⟩, hlong⟩, fun hor => by omega⟩
    · have hkept := h.pendingOperands_flushed_of_no_base hbased
      rw [hkept]
      exact ⟨.inr, fun hor => hor.resolve_left fun hand => hbased hand.1⟩
  rw [hunion]
  -- no key is in both parts
  apply Set.encard_union_eq
  rw [Set.disjoint_left]
  rintro key ⟨⟨base, hbase⟩, -⟩ hwaits
  have hzero := h.pendingOperands_flushed_of_base hbase
  have hwaits : 0 < engine.flushed.pendingOperands key := hwaits
  omega

theorem encard_waiting_eq (h : engine.Ascending) :
    engine.waiting.encard = engine.keys.countP fun key => 0 < engine.pendingOperands key := by
  apply encard_eq_countP engine.pairwise_keys
  intro key
  refine ⟨fun hwaits => ⟨?_, hwaits⟩, fun hand => hand.2⟩
  by_contra hkey
  have hwaits : 0 < engine.pendingOperands key := hwaits
  rw [Layers.pendingOperands, Layers.chain, history_eq_nil h hkey] at hwaits
  exact absurd hwaits (by simp)

/-- After a flush the keys of the runs are all there are. -/
theorem encard_waiting_flushed (h : engine.Ascending) :
    engine.flushed.waiting.encard =
      (Bytes.sortDistinct (engine.flushed.runs.flatMap KeyMap.keys)).countP fun key =>
        0 < engine.flushed.pendingOperands key := by
  apply encard_eq_countP (Bytes.pairwise_sortDistinct _)
  intro key
  refine ⟨fun hwaits => ⟨?_, hwaits⟩, fun hand => hand.2⟩
  by_contra hkey
  have hwaits : 0 < engine.flushed.pendingOperands key := hwaits
  rw [Layers.pendingOperands, Layers.chain, Layers.history_eq,
    runHistory_eq_nil (ascending_flushed h) hkey, memtable_flushed] at hwaits
  exact absurd hwaits (by simp [Layer.records_nil])

theorem encard_resolved_eq (h : engine.Ascending) :
    {key | key ∈ engine.based ∧ 0 < engine.memtableOperands key}.encard =
      engine.memtable.keys.countP fun key =>
        (Chain.ofRecords (engine.memtable.records key)).base.isSome ∧
          0 < engine.memtableOperands key := by
  apply encard_eq_countP (List.pairwise_map.mpr h.1)
  intro key
  show key ∈ engine.based ∧ 0 < engine.memtableOperands key ↔ _
  rw [Layers.mem_based]
  refine ⟨fun hand => ⟨?_, hand⟩, fun hand => hand.2⟩
  apply Layer.mem_keys_of_records_ne_nil h.1
  intro hnil
  rw [hnil] at hand
  cases hand.1

/-! ### What the statistics show -/

variable {meter : Meter}

/-- A metered engine raises the tickers of its work in the statistics. -/
theorem raises_work (hmeter : meter.engine) {ticker : Ticker} (hticker : ticker ≠ .corruptOperand)
    {α : Type} (call : Call Event Layered α) (engine : Layered) :
    meter.Raises (call.relabel .engine) engine ticker
      ((call.tickers Event.work? engine).count ticker) := by
  have hview : ∀ event ∈ (call.relabel Counters.Event.engine).events engine,
      event.work? = some ticker ↔ meter.ticker? event = some ticker := by
    intro event hmem
    obtain ⟨event, -, rfl⟩ := List.mem_map.mp hmem
    have hmetered : meter.ticker? (.engine event) = event.ticker? := if_pos hmeter
    -- with its sink the engine shows all tickers but that of malformed operands
    rw [hmetered]
    cases event with
    | operator event =>
      cases event <;> simp [Counters.Event.work?, Event.work?, Event.ticker?,
        Operator.Event.ticker?, Ne.symm hticker]
    | _ => rfl
  have hraises := Meter.raises_view hview
  rw [Call.tickers_relabel] at hraises
  exact hraises

/-- If each of the keys that have a property raises one ticker, that ticker is raised for each of
them and no other ticker is raised. -/
theorem count_flatMap_ite (keys : List Bytes) (p : Bytes → Prop) [DecidablePred p]
    (raised ticker : Ticker) :
    (keys.flatMap fun key => if p key then [raised] else []).count ticker =
      if raised = ticker then keys.countP p else 0 := by
  by_cases hsame : raised = ticker
  · subst hsame
    rw [if_pos rfl]
    apply count_flatMap_eq_countP
    intro key _
    split <;> simp
  · rw [if_neg hsame, List.count_eq_zero]
    intro hmem
    obtain ⟨key, -, hkey⟩ := List.mem_flatMap.mp hmem
    split at hkey
    · exact hsame (List.mem_singleton.mp hkey).symm
    · cases hkey

theorem Batch.exists_merge_iff {batch : Batch} {key : Bytes} :
    key ∈ batch.mergedKeys ↔ ∃ operand, Write.merge key operand ∈ batch := by
  rw [Batch.mem_mergedKeys]
  simp only [Write.history, List.mem_map, List.mem_filter, decide_eq_true_eq]
  constructor
  · rintro ⟨operand, ⟨k, record⟩, ⟨hmem, rfl⟩, rfl⟩
    exact ⟨operand, hmem⟩
  · rintro ⟨operand, hmem⟩
    exact ⟨operand, _, ⟨hmem, rfl⟩, rfl⟩

/-- What a call raises in metered statistics: the tickers of merges once for each key of some sets,
and the ticker of flushes so many times. -/
structure Raises (meter : Meter) {α : Type} (call : Call Event Layered α) (engine : Layered)
    (full partially limited : Set Bytes) (flushes : Nat) : Prop where
  /-- The keys whose operands are resolved into a value. -/
  full : meter.RaisesForEach (call.relabel .engine) engine .fullMerge full
  /-- The keys whose operands are resolved into one operand. -/
  partially : meter.RaisesForEach (call.relabel .engine) engine .partialMerge partially
  /-- The keys that are resolved because of the limit. -/
  limited : meter.RaisesForEach (call.relabel .engine) engine .chainLimitMerge limited
  /-- The flushes of a memtable that held something. -/
  flushes : meter.Raises (call.relabel .engine) engine .flush flushes

theorem raises_of_count (hmeter : meter.engine) {α : Type} {call : Call Event Layered α}
    {full partially limited : Set Bytes} {flushes : Nat}
    (hfull : full.encard = (call.tickers Event.work? engine).count .fullMerge)
    (hpartially : partially.encard = (call.tickers Event.work? engine).count .partialMerge)
    (hlimited : limited.encard = (call.tickers Event.work? engine).count .chainLimitMerge)
    (hflushes : (call.tickers Event.work? engine).count .flush = flushes) :
    Raises meter call engine full partially limited flushes where
  full := ⟨_, hfull, raises_work hmeter (by decide) call engine⟩
  partially := ⟨_, hpartially, raises_work hmeter (by decide) call engine⟩
  limited := ⟨_, hlimited, raises_work hmeter (by decide) call engine⟩
  flushes := hflushes ▸ raises_work hmeter (by decide) call engine

/-- A read resolves its key if operands of it wait. -/
theorem OpenUnder.raises_get (h : engine.OpenUnder (some kind)) (hmeter : meter.engine)
    (key : Bytes) :
    Raises meter (Layered.engine.get key) engine {k | k = key ∧ k ∈ engine.waiting} ∅ ∅ 0 := by
  apply raises_of_count hmeter <;> rw [h.work_get key]
  · -- the key is counted if it waits, and it is the only one
    by_cases hwaits : 0 < engine.pendingOperands key
    · have hone : {k | k = key ∧ k ∈ engine.waiting} = {key} := by
        ext k
        exact ⟨fun hand => hand.1, fun heq => ⟨heq, heq ▸ hwaits⟩⟩
      rw [hone, Set.encard_singleton, if_pos hwaits]
      rfl
    · have hnone : {k | k = key ∧ k ∈ engine.waiting} = ∅ := by
        refine Set.eq_empty_of_forall_notMem ?_
        rintro k ⟨rfl, hk⟩
        exact hwaits hk
      rw [hnone, Set.encard_empty, if_neg hwaits]
      rfl
  all_goals split <;> simp

/-- A dump resolves each key with operands that wait. -/
theorem OpenUnder.raises_dump (h : engine.OpenUnder (some kind)) (hmeter : meter.engine) :
    Raises meter Layered.engine.dump engine engine.waiting ∅ ∅ 0 := by
  apply raises_of_count hmeter <;> rw [h.work_dump, count_flatMap_ite]
  · exact encard_waiting_eq h.ascending
  all_goals simp

/-- A flush resolves each key of which the memtable holds a put or a delete under operands. -/
theorem OpenUnder.raises_flush (h : engine.OpenUnder (some kind)) (hmeter : meter.engine) :
    Raises meter flush engine {key | key ∈ engine.based ∧ 0 < engine.memtableOperands key} ∅ ∅
      (if engine.memtable = [] then 0 else 1) := by
  have hresolved := encard_resolved_eq h.ascending
  apply raises_of_count hmeter <;> rw [h.work_flush]
  · rw [hresolved]
    by_cases hempty : engine.memtable = []
    · rw [if_pos hempty, hempty]
      rfl
    · rw [if_neg hempty, List.count_append, count_flatMap_ite]
      rfl
  all_goals
    by_cases hempty : engine.memtable = []
    · simp [hempty]
    · simp [hempty, count_flatMap_ite]

/-- A compaction resolves each key with operands that wait: some in its flush, and the others
after it. -/
theorem OpenUnder.raises_compact (h : engine.OpenUnder (some kind)) (hmeter : meter.engine) :
    Raises meter compact engine engine.waiting ∅ ∅ (if engine.memtable = [] then 0 else 1) := by
  have hresolved := encard_resolved_eq h.ascending
  apply raises_of_count hmeter <;>
    rw [h.work_compact, h.work_flush, List.count_append, List.count_append, count_flatMap_ite]
  · -- what the flush resolves and what the compaction resolves after it are all that waits
    rw [h.encard_waiting, hresolved, encard_waiting_flushed h.ascending]
    by_cases hempty : engine.memtable = []
    · rw [if_pos hempty, hempty]
      simp [KeyMap.keys]
    · rw [if_neg hempty, List.count_append, count_flatMap_ite]
      simp
  all_goals
    by_cases hempty : engine.memtable = []
    · simp [hempty]
    · simp [hempty, count_flatMap_ite]

theorem mem_overlong {batch : Batch} {key : Bytes} :
    key ∈ engine.overlong batch ↔ key ∈ batch.mergedKeys ∧
      engine.limit ≠ 0 ∧ engine.limit.toNat < (engine.pushed batch).memtableOperands key := by
  rw [Batch.exists_merge_iff]
  exact Iff.rfl

/-- Enforcing the limit raises a ticker for those keys of a batch that bring it. -/
theorem encard_limitWork (engine : Layered) (batch : Batch) {p : Bytes → Prop} [DecidablePred p]
    {ticker : Ticker} {set : Set Bytes} (hset : ∀ key, key ∈ set ↔ key ∈ batch.mergedKeys ∧ p key)
    (hcount : ∀ key, ((engine.pushed batch).limitWork key).count ticker = if p key then 1 else 0) :
    set.encard =
      (batch.mergedKeys.flatMap (engine.pushed batch).limitWork).count ticker := by
  have hdistinct : batch.mergedKeys.Pairwise (· < ·) := Bytes.pairwise_sortDistinct _
  rw [count_flatMap_eq_countP fun key _ => hcount key]
  exact encard_eq_countP hdistinct hset

/-- A batch resolves the keys that it brings beyond the limit: into a value if the memtable holds a
put or a delete of the key, and else into one operand. -/
theorem OpenUnder.raises_write (h : engine.OpenUnder (some kind)) (hmeter : meter.engine)
    (batch : Batch) :
    Raises meter (write batch) engine
      {key | key ∈ engine.overlong batch ∧ key ∈ (engine.pushed batch).based}
      {key | key ∈ engine.overlong batch ∧ key ∉ (engine.pushed batch).based}
      (engine.overlong batch) 0 := by
  let long := fun key =>
    engine.limit ≠ 0 ∧ engine.limit.toNat < (engine.pushed batch).memtableOperands key
  let known := fun key =>
    (Chain.ofRecords ((engine.pushed batch).memtable.records key)).base.isSome
  -- what a key beyond the limit costs, by whether its chain has a known base
  have hwork : ∀ key, (engine.pushed batch).limitWork key =
      if long key then [if known key then .fullMerge else .partialMerge, .chainLimitMerge]
      else [] := fun _ => rfl
  have hcount : ∀ key, ((engine.pushed batch).limitWork key).count .fullMerge =
        (if long key ∧ known key then 1 else 0) ∧
      ((engine.pushed batch).limitWork key).count .partialMerge =
        (if long key ∧ ¬known key then 1 else 0) ∧
      ((engine.pushed batch).limitWork key).count .chainLimitMerge =
        (if long key then 1 else 0) ∧
      ((engine.pushed batch).limitWork key).count .flush = 0 := by
    intro key
    rw [hwork]
    by_cases hlong : long key <;> by_cases hknown : known key <;> simp [hlong, hknown]
  -- each of the three tickers is raised by its own keys, and no flush is made
  apply raises_of_count hmeter <;> rw [h.work_write]
  · apply encard_limitWork engine batch _ fun key => (hcount key).1
    intro key
    show key ∈ engine.overlong batch ∧ key ∈ (engine.pushed batch).based ↔ _
    rw [mem_overlong, Layers.mem_based, and_assoc]
  · apply encard_limitWork engine batch _ fun key => (hcount key).2.1
    intro key
    show key ∈ engine.overlong batch ∧ key ∉ (engine.pushed batch).based ↔ _
    rw [mem_overlong, Layers.mem_based, and_assoc]
  · exact encard_limitWork engine batch (fun key => mem_overlong) fun key => (hcount key).2.2.1
  · rw [List.count_eq_zero]
    intro hmem
    obtain ⟨key, -, hkey⟩ := List.mem_flatMap.mp hmem
    exact List.count_eq_zero.mp (hcount key).2.2.2 hkey

/-- On every reachable engine with an operator and metered statistics, a read asks for one full
merge if operands of its key wait, and a dump for one for each key with operands that wait.  A flush
asks for one for each key with a put or a delete in the memtable and operands after it.  A
compaction, its flush included, asks for one for each key with operands that wait, so no chain is
resolved twice.  None of them asks for anything else, and a flush is counted if the memtable held
something.  A batch is counted for each of the distinct keys that it brings beyond the limit, with a
full merge if the memtable holds a put or a delete of the key, and else with a partial one. -/
theorem Reachable.work_accounted (h : engine.Reachable) (hsome : engine.operator.isSome)
    (hmeter : meter.engine) :
    (∀ key, Raises meter (Layered.engine.get key) engine
      {k | k = key ∧ k ∈ engine.waiting} ∅ ∅ 0) ∧
    Raises meter Layered.engine.dump engine engine.waiting ∅ ∅ 0 ∧
    Raises meter Layered.engine.flush engine
      {key | key ∈ engine.based ∧ 0 < engine.memtableOperands key} ∅ ∅
      (if engine.memtable = [] then 0 else 1) ∧
    Raises meter Layered.engine.compact engine engine.waiting ∅ ∅
      (if engine.memtable = [] then 0 else 1) ∧
    ∀ batch, Raises meter (Layered.engine.write batch) engine
      {key | key ∈ engine.overlong batch ∧ key ∈ (engine.pushed batch).based}
      {key | key ∈ engine.overlong batch ∧ key ∉ (engine.pushed batch).based}
      (engine.overlong batch) 0 := by
  obtain ⟨kind, hopen⟩ := h.exists_kind hsome
  exact ⟨hopen.raises_get hmeter, hopen.raises_dump hmeter, hopen.raises_flush hmeter,
    hopen.raises_compact hmeter, hopen.raises_write hmeter⟩

/-- Operands of three keys wait: of one in a run, of one in the memtable over a put there, and of
one in both layers.  A flush resolves one of them and a compaction all three.  A batch under the
limit one brings three keys beyond it, of which one has a put. -/
theorem Reachable.work_accounted_three :
    let script : Script :=
      [.write [.merge [1] [4], .merge [2] [5], .put [4] [6]], .flush,
        .write [.put [3] [9], .merge [3] [8], .merge [2] [7]]]
    let engine := Script.after script (Layered.opened [] none ⟨some .fullPartial, 1, true⟩)
    let batch : Batch :=
      [.merge [3] [1], .merge [1] [2], .merge [5] [3], .merge [5] [3], .merge [2] [1], .delete [1]]
    let meter : Meter := ⟨true, false⟩
    engine.Reachable ∧ engine.operator.isSome ∧ meter.engine ∧
      meter.Raises (Layered.engine.flush.relabel .engine) engine .fullMerge 1 ∧
      meter.Raises (Layered.engine.compact.relabel .engine) engine .fullMerge 3 ∧
      meter.Raises (Layered.engine.compact.relabel .engine) engine .flush 1 ∧
      meter.Raises ((Layered.engine.write batch).relabel .engine) engine .chainLimitMerge 3 := by
  intro script engine batch meter
  have hempty : Reachable (Layered.opened [] none ⟨some .fullPartial, 1, true⟩) :=
    .opened ⟨some .fullPartial, 1, true⟩ (result_ofStore (.inl rfl))
  have hreachable : engine.Reachable := hempty.after script
  have hsome : engine.operator.isSome := by decide
  have hmeter : meter.engine := rfl
  obtain ⟨operator, hopen⟩ := hreachable.openUnder
  obtain ⟨-, -, hflush, hcompact, hwrite⟩ := Reachable.work_accounted hreachable hsome hmeter
  have hresolved : {key | key ∈ engine.based ∧ 0 < engine.memtableOperands key}.encard =
      (1 : Nat) := by
    rw [encard_resolved_eq hopen.ascending]
    exact congrArg Nat.cast (by decide)
  have hwaiting : engine.waiting.encard = (3 : Nat) := by
    rw [encard_waiting_eq hopen.ascending]
    exact congrArg Nat.cast (by decide)
  have hoverlong : (engine.overlong batch).encard = (3 : Nat) := by
    have hdistinct : batch.mergedKeys.Pairwise (· < ·) := Bytes.pairwise_sortDistinct _
    rw [encard_eq_countP hdistinct fun key => mem_overlong]
    exact congrArg Nat.cast (by decide)
  exact ⟨hreachable, hsome, hmeter, hflush.full.raises hresolved, hcompact.full.raises hwaiting,
    hcompact.flushes, (hwrite batch).limited.raises hoverlong⟩

end Layered
end LazyTally
