import Mathlib.Data.List.Induction
import LazyTally.Proofs.Canonical
import LazyTally.Proofs.Effects
import LazyTally.Proofs.Provenance

/-!
# How long chains get

The limit is enforced after every batch, on the keys that got operands and in the memtable only.
That is enough: no chain in the memtable is ever longer than the limit.  Neither a flush nor a
compaction makes a chain longer, and closing turns a memtable whose chains are short into a run
whose chains are.  So a store that was always opened with one limit shows, layer by layer, at
most so many operands of a key.

## Main definitions

* `Layer.Within` — no key of a layer shows more operands than a bound.
* `Life.Steady` — the store was always opened with an operator and with one limit.
* `Life.Bounded` — what holds of the layers of a store throughout its life.

## Main results

* `Resolution.chain_limited` — how many operands the limit leaves of a chain.
* `Layered.within_written` — a batch leaves the memtable within the limit.
* `Life.Bounded.after` — what happens to a store keeps its layers bounded.
* `Life.operands_le_limit` — the bounds in the memtable and over all layers.
-/

namespace LazyTally

/-! ### The length of a chain -/

theorem one_le_toNat {word : UInt64} (h : word ≠ 0) : 1 ≤ word.toNat := by
  have hne : word.toNat ≠ 0 := fun hzero => h (UInt64.toNat_inj.mp hzero)
  omega

/-- The operands of a history are not more than those of its two parts. -/
theorem Chain.length_operands_append_le (older newer : List Record) :
    (ofRecords (older ++ newer)).operands.length ≤
      (ofRecords older).operands.length + (ofRecords newer).operands.length := by
  rw [ofRecords_append]
  cases (ofRecords newer).base <;> simp

/-- Without an operand among them, records show none. -/
theorem Chain.operands_eq_nil {records : List Record} (h : ∀ operand, .merge operand ∉ records) :
    (ofRecords records).operands = [] := by
  induction records with
  | nil => rfl
  | cons record records ih =>
    have hrest := ih fun operand hmem => h operand (List.mem_cons_of_mem record hmem)
    rw [ofRecords_cons]
    generalize ofRecords records = chain at hrest ⊢
    obtain ⟨base, operands⟩ := chain
    -- behind a base no record matters
    cases base with
    | some base => exact hrest
    | none =>
      cases record with
      | put value => exact hrest
      | delete => exact hrest
      | merge operand => exact absurd List.mem_cons_self (h operand)

namespace Resolution

/-- Both operators on counters merge two or more operands into one. -/
theorem exists_partially (kind : OperatorKind) (key : Bytes) {operands : List Bytes}
    (h : 2 ≤ operands.length) :
    ∃ merged, (partially kind.operator key operands).value = some merged := by
  obtain ⟨first, second, rest, rfl⟩ : ∃ first second rest, operands = first :: second :: rest := by
    rcases operands with _ | ⟨first, _ | ⟨second, rest⟩⟩
    · simp at h
    · simp at h
    · exact ⟨first, second, rest, rfl⟩
  -- a pair is merged as such, and more operands as a list
  cases rest with
  | nil =>
    obtain ⟨merged, hmerged⟩ := kind.exists_partialMerge key first second
    exact ⟨merged, (value_reporting key _).trans hmerged⟩
  | cons third rest =>
    obtain ⟨merged, hmerged⟩ :=
      kind.exists_partialMergeAll key (List.cons_ne_nil first (second :: third :: rest))
    exact ⟨merged, (value_reporting key _).trans hmerged⟩

/-- Under an operator on counters, a limit keeps a base a base and leaves a chain within it alone.
Beyond it the operands become a part of the base, or one operand if there is no base. -/
theorem chain_limited (kind : OperatorKind) {limit : UInt64} (hpos : limit ≠ 0) (key : Bytes)
    (records : List Record) :
    (Chain.ofRecords (limited (some kind.operator) limit key records)).base.isSome =
        (Chain.ofRecords records).base.isSome ∧
      (Chain.ofRecords (limited (some kind.operator) limit key records)).operands.length =
        if (Chain.ofRecords records).operands.length ≤ limit.toNat then
          (Chain.ofRecords records).operands.length
        else if (Chain.ofRecords records).base.isSome then 0 else 1 := by
  have htotal : Total (some kind.operator) := fun _ h => Option.some.inj h ▸ kind.total
  have hone := one_le_toNat hpos
  generalize hleft : Chain.ofRecords (limited (some kind.operator) limit key records) = left
  unfold limited at hleft
  generalize hchain : Chain.ofRecords records = chain at hleft ⊢
  rcases replacement?_cases htotal limit key chain with
    ⟨hstays, hwithin⟩ | ⟨op, hop, -, hlong, -, hshortened⟩
  · have hshort : chain.operands.length ≤ limit.toNat := by
      -- an operator is configured and the limit is not zero, so the chain was short
      rcases hwithin with hnone | hzero | hshort
      · cases hnone
      · exact absurd hzero hpos
      · exact hshort
    rw [hstays] at hleft
    have hsame : left = chain := hleft.symm.trans hchain
    rw [if_pos hshort, hsame]
    exact ⟨rfl, rfl⟩
  · obtain rfl := Option.some.inj hop
    rw [if_neg (Nat.not_le.mpr hlong)]
    rcases hshortened with ⟨record, hrecord, hshort⟩ | ⟨-, -, hkept⟩
    · rw [hrecord] at hleft
      obtain rfl : Chain.ofRecords [record] = left := hleft
      -- a chain over a base is one put afterwards, and any other is one operand
      cases hshort with
      | settled hbase hvalue =>
        rw [hbase]
        exact ⟨rfl, rfl⟩
      | joined hbase hmerged =>
        rw [hbase]
        exact ⟨rfl, rfl⟩
    · -- the operator keeps no two operands
      have htwo : 2 ≤ chain.operands.length := by omega
      obtain ⟨merged, hmerged⟩ := exists_partially kind key htwo
      rw [hmerged] at hkept
      cases hkept

/-- Under an operator on counters, what a limit leaves is within the limit. -/
theorem length_operands_limited_le (kind : OperatorKind) {limit : UInt64} (hpos : limit ≠ 0)
    (key : Bytes) (records : List Record) :
    (Chain.ofRecords (limited (some kind.operator) limit key records)).operands.length ≤
      limit.toNat := by
  have hone := one_le_toNat hpos
  obtain ⟨-, hlength⟩ := chain_limited kind hpos key records
  rw [hlength]
  split
  · assumption
  · split <;> omega

/-- Neither a flush nor a compaction makes a chain longer. -/
theorem Condenses.length_operands_le {operator : Option Operator} {key : Bytes} {chain : Chain}
    {bottommost : Bool} {records : List Record}
    (h : Condenses operator key chain bottommost records) :
    (Chain.ofRecords records).operands.length ≤ chain.operands.length := by
  cases h with
  | bare hbare =>
    obtain ⟨base, operands⟩ := chain
    rcases base with _ | _ | _ <;> cases bottommost <;> simp [Resolution.bare, Chain.behind]
  | kept hne hop => rw [Chain.ofRecords_records]
  | settled hne hop hknown hvalue => simp [Chain.behind]
  | joined hne hop hbase hbottom hflush hmerged =>
    -- operands that were merged on a flush are one at most
    have hone := List.length_pos_iff.mpr hne
    simp only [Chain.ofRecords_cons, Chain.ofRecords_nil, Chain.behind, List.length_cons,
      List.length_nil]
    omega
  | unsettled hne hop hbase hbottom =>
    rw [Chain.operandRecords, Chain.ofRecords_map_merge]

end Resolution

/-! ### Layers within a bound -/

/-- No key of the layer shows more operands than the bound. -/
def Layer.Within (bound : Nat) (layer : Layer) : Prop :=
  ∀ key, (Chain.ofRecords (layer.records key)).operands.length ≤ bound

theorem Layer.within_nil (bound : Nat) : Layer.Within bound [] := fun _ => Nat.zero_le bound

/-- A layer within a bound is flushed into a run within it. -/
theorem Layer.Within.condensed {bound : Nat} {layer : Layer} (h : layer.Within bound)
    {operator : Option Operator} (htotal : Resolution.Total operator) :
    (layer.condensed operator).Within bound := by
  intro key
  rw [records_condensed]
  have hcondenses := Resolution.condenses_condensed htotal key
    (Chain.ofRecords (layer.records key)) false
  exact hcondenses.length_operands_le.trans (h key)

theorem length_operands_flatMap_le {bound : Nat} {runs : List Layer}
    (h : ∀ run ∈ runs, run.Within bound) (key : Bytes) :
    (Chain.ofRecords (runs.flatMap fun run => run.records key)).operands.length ≤
      bound * runs.length := by
  induction runs with
  | nil => simp
  | cons run runs ih =>
    obtain ⟨hrun, hruns⟩ := List.forall_mem_cons.mp h
    have hfirst := hrun key
    have hrest := ih hruns
    have happend := Chain.length_operands_append_le (run.records key)
      (runs.flatMap fun run => run.records key)
    rw [List.flatMap_cons, List.length_cons, Nat.mul_succ]
    omega

/-- Layer by layer a key shows at most so many operands. -/
theorem Layers.pendingOperands_le {bound : Nat} {layers : Layers}
    (hmemtable : layers.memtable.Within bound) (hruns : ∀ run ∈ layers.runs, run.Within bound)
    (key : Bytes) : layers.pendingOperands key ≤ bound * (layers.runs.length + 1) := by
  have hnewest := hmemtable key
  have holder := length_operands_flatMap_le hruns key
  have happend := Chain.length_operands_append_le (layers.runHistory key)
    (layers.memtable.records key)
  rw [pendingOperands, chain, history_eq, Nat.mul_succ]
  simp only [runHistory] at happend ⊢
  omega

/-! ### What calls do to the bounds -/

namespace Layered

/-- With an operator and a limit, the memtable is within the limit. -/
def Limited (engine : Layered) : Prop :=
  engine.operator.isSome → engine.limit ≠ 0 → engine.memtable.Within engine.limit.toNat

section

variable {engine : Layered} {operator : Option OperatorKind} {kind : OperatorKind}

/-- A batch leaves the memtable within the limit: keys that get operands have theirs enforced,
and on other keys a batch leaves no operand. -/
theorem within_written (h : engine.OpenUnder (some kind)) (hpos : engine.limit ≠ 0)
    (hwithin : engine.memtable.Within engine.limit.toNat) (batch : Batch) :
    (engine.written batch).memtable.Within engine.limit.toNat := by
  intro key
  rw [records_written h.ascending, h.operator_eq]
  by_cases hmerged : key ∈ batch.mergedKeys
  · rw [if_pos hmerged]
    exact Resolution.length_operands_limited_le kind hpos key _
  · -- a key without new operands keeps the bound that it had
    rw [if_neg hmerged]
    have hnone : (Chain.ofRecords (Write.history batch key)).operands = [] := by
      apply Chain.operands_eq_nil
      intro operand hmem
      exact hmerged (Batch.mem_mergedKeys.mpr ⟨operand, hmem⟩)
    have happend := Chain.length_operands_append_le (engine.memtable.records key)
      (Write.history batch key)
    have hbefore := hwithin key
    simp only [hnone, List.length_nil] at happend
    omega

/-- At the bottom no operand is left. -/
theorem within_runs_compacted (h : engine.OpenUnder (some kind)) (bound : Nat) :
    ∀ run ∈ engine.compacted.runs, run.Within bound := by
  intro run hrun key
  have hflushed := h.flushed
  obtain ⟨rfl, -⟩ := eq_of_mem_bottomRuns hrun
  rw [records_bottom hflushed.ascending (memtable_flushed engine), hflushed.operator_eq,
    Option.map_some, Layers.chain,
    Resolution.condensed_bottom kind.total (kind.respects_stepwise key)]
  cases (kind.operator.stepwise key).meaning (engine.flushed.history key) <;>
    simp [Chain.behind]

/-- A call leaves the engine alone, writes a batch, flushes or compacts. -/
theorem after_operation (htotal : Resolution.Total engine.operator)
    (operation : Engine.Operation) :
    (operation.call Layered.engine).after engine = engine ∨
      (∃ batch, (operation.call Layered.engine).after engine = engine.written batch) ∨
      (operation.call Layered.engine).after engine = engine.flushed ∨
      (operation.call Layered.engine).after engine = engine.compacted := by
  have hwrite : ∀ batch, (write batch).after engine = engine.written batch :=
    fun batch => (gives_written htotal batch).2
  -- a single write is a batch of one
  cases operation with
  | put key value => exact .inr (.inl ⟨_, hwrite [.put key value]⟩)
  | delete key => exact .inr (.inl ⟨_, hwrite [.delete key]⟩)
  | merge key operand => exact .inr (.inl ⟨_, hwrite [.merge key operand]⟩)
  | write batch => exact .inr (.inl ⟨_, hwrite batch⟩)
  | flush => exact .inr (.inr (.inl (gives_flush htotal).2))
  | compact => exact .inr (.inr (.inr (gives_compact htotal).2))
  | get key =>
    rw [Engine.Operation.call, Call.after_bind_pure]
    exact .inl rfl
  | dump =>
    rw [Engine.Operation.call, Call.after_bind_pure]
    exact .inl rfl

/-- A call keeps the operator and the limit. -/
theorem OpenUnder.after_operation_eq (h : engine.OpenUnder operator)
    (operation : Engine.Operation) :
    ((operation.call Layered.engine).after engine).operator = engine.operator ∧
      ((operation.call Layered.engine).after engine).limit = engine.limit := by
  rcases after_operation h.total operation with hsame | ⟨batch, hwrites⟩ | hflushes | hcompacts
  · rw [hsame]
    exact ⟨rfl, rfl⟩
  · rw [hwrites]
    exact ⟨operator_written engine batch, limit_written engine batch⟩
  · have hsame := sameTo_flushed (respects_blind engine.operator) h.total
    rw [hflushes]
    exact ⟨hsame.operator, hsame.limit⟩
  · have hsame := sameTo_compacted (respects_blind engine.operator) h.total
    rw [hcompacts]
    exact ⟨hsame.operator, hsame.limit⟩

/-- A call leaves the memtable within the limit. -/
theorem Limited.operation (hlimited : engine.Limited) (h : engine.OpenUnder operator)
    (operation : Engine.Operation) :
    ((operation.call Layered.engine).after engine).Limited := by
  obtain ⟨hoperator, hlimit⟩ := h.after_operation_eq operation
  intro hsome hpos
  rw [hoperator] at hsome
  rw [hlimit] at hpos ⊢
  have hwithin := hlimited hsome hpos
  rcases after_operation h.total operation with hsame | ⟨batch, hwrites⟩ | hflushes | hcompacts
  · rw [hsame]
    exact hwithin
  · rw [hwrites]
    obtain ⟨kind, rfl⟩ := h.exists_kind hsome
    exact within_written h hpos hwithin batch
  · -- both leave the memtable empty
    rw [hflushes, memtable_flushed]
    exact Layer.within_nil _
  · rw [hcompacts, memtable_compacted]
    exact Layer.within_nil _

/-- A flush adds a run within the bound of the memtable. -/
theorem within_runs_flushed {bound : Nat} (htotal : Resolution.Total engine.operator)
    (hmemtable : engine.memtable.Within bound) (hruns : ∀ run ∈ engine.runs, run.Within bound) :
    ∀ run ∈ engine.flushed.runs, run.Within bound := by
  intro run hrun
  rcases mem_or_eq_of_mem_runs_flushed hrun with hold | rfl
  · exact hruns run hold
  · exact hmemtable.condensed htotal

/-- With an operator a call leaves all runs within the bound of the layers. -/
theorem within_runs_operation {bound : Nat} (h : engine.OpenUnder (some kind))
    (hmemtable : engine.memtable.Within bound) (hruns : ∀ run ∈ engine.runs, run.Within bound)
    (operation : Engine.Operation) :
    ∀ run ∈ ((operation.call Layered.engine).after engine).runs, run.Within bound := by
  rcases after_operation h.total operation with hsame | ⟨batch, hwrites⟩ | hflushes | hcompacts
  · rw [hsame]
    exact hruns
  · rw [hwrites, runs_written]
    exact hruns
  · rw [hflushes]
    exact within_runs_flushed h.total hmemtable hruns
  · rw [hcompacts]
    exact within_runs_compacted h bound

/-- A closed memtable becomes a run within its own bound. -/
theorem within_runs_close {bound : Nat} (hmemtable : engine.memtable.Within bound)
    (hruns : ∀ run ∈ engine.runs, run.Within bound) :
    ∀ run ∈ engine.close.runs, run.Within bound := by
  intro run hrun
  rcases mem_or_eq_of_mem_runs_close hrun with hold | rfl
  · exact hruns run hold
  · exact hmemtable

end
end Layered

/-! ### Lives -/

namespace Life

/-- The store was always opened with an operator, and with the limit. -/
def Steady (limit : UInt64) (life : Life) : Prop :=
  ∀ options ∈ life.openings, options.operator.isSome ∧ options.maxSuccessiveMerges = limit

/-- All runs of the store are within the limit, which is that of an open engine. -/
def PhaseWithin (limit : UInt64) : Session.Phase Layered → Prop
  | .opened engine => engine.operator.isSome ∧ engine.limit = limit ∧
      ∀ run ∈ engine.runs, run.Within limit.toNat
  | .closed store => ∀ run ∈ store.runs, run.Within limit.toNat

/-- The memtable is within the limit, and if the limit was always the same, so are the runs. -/
structure Bounded (life : Life) : Prop where
  /-- The memtable of an open engine is within its limit. -/
  memtable : ∀ engine, life.phase = .opened engine → engine.Limited
  /-- Under one limit all runs are within it. -/
  runs : ∀ limit, limit ≠ 0 → life.Steady limit → PhaseWithin limit life.phase

theorem bounded_start : start.Bounded := ⟨nofun, fun _ _ _ => nofun⟩

section

variable {life : Life} {operator : Option OperatorKind}

/-- To open a store gives an engine with an empty memtable over the same runs, and if that fails,
nothing happens to the store. -/
theorem after_opening (life : Life) (options : Options) :
    ((life.after (.opening options)).phase = life.phase ∧
        (life.after (.opening options)).openings = life.openings) ∨
      ∃ store, life.phase = .closed store ∧
        (life.after (.opening options)).phase =
          .opened (Layered.opened store.runs store.operator options) ∧
        (life.after (.opening options)).openings = life.openings ++ [options] := by
  rw [after]
  cases hphase : life.phase with
  | opened engine => exact .inl ⟨hphase, rfl⟩
  | closed store =>
    -- the only opening that counts is that of a closed store whose mark accepts the options
    by_cases haccepts : store.operator = none ∨ store.operator = options.operatorName?
    · dsimp only
      rw [Layered.result_ofStore haccepts]
      exact .inr ⟨store, rfl, rfl, rfl⟩
    · dsimp only
      rw [Layered.result_ofStore_error haccepts]
      exact .inl ⟨rfl, rfl⟩

theorem Bounded.opening (h : life.Bounded) (options : Options) :
    (life.after (.opening options)).Bounded := by
  -- an opening is refused and nothing changes, or the store is opened with what it holds
  rcases after_opening life options with ⟨hphase, hopenings⟩ | ⟨store, hclosed, hphase, hopenings⟩
  · refine ⟨?_, ?_⟩
    · rw [hphase]
      exact h.memtable
    · unfold Steady
      rw [hphase, hopenings]
      exact h.runs
  · refine ⟨?_, ?_⟩
    · intro engine hopened _ _
      rw [hphase] at hopened
      obtain rfl := Session.Phase.opened.inj hopened
      exact Layer.within_nil _
    · intro limit hpos hsteady
      unfold Steady at hsteady
      rw [hopenings] at hsteady
      -- the openings before this one had the same limit
      have hbefore : life.Steady limit := fun opening hmem =>
        hsteady opening (List.mem_append_left _ hmem)
      obtain ⟨hsome, hlimit⟩ := hsteady options (List.mem_append_right _ List.mem_cons_self)
      have hruns := h.runs limit hpos hbefore
      rw [hclosed] at hruns
      rw [hphase]
      refine ⟨?_, hlimit, hruns⟩
      show (options.operator.map OperatorKind.operator).isSome
      rw [Option.isSome_map]
      exact hsome

theorem Bounded.operation (h : life.Bounded) (hunder : life.Under operator)
    (operation : Engine.Operation) : (life.after (.operation operation)).Bounded := by
  have hphase := hunder.phase
  rw [after]
  cases hlife : life.phase with
  | closed store => exact h
  | opened engine =>
    rw [hlife] at hphase
    have hlimited := h.memtable engine hlife
    refine ⟨?_, ?_⟩
    · intro after hafter
      obtain rfl := Session.Phase.opened.inj hafter
      exact hlimited.operation hphase operation
    · intro limit hpos hsteady
      have hruns := h.runs limit hpos hsteady
      rw [hlife] at hruns
      -- the limit of the runs is that of the open engine, which no operation changes
      obtain ⟨hsome, rfl, hwithin⟩ := hruns
      obtain ⟨hoperator, hlimit⟩ := hphase.after_operation_eq operation
      obtain ⟨kind, rfl⟩ := hphase.exists_kind hsome
      refine ⟨?_, hlimit, ?_⟩
      · rw [hoperator]
        exact hsome
      · exact Layered.within_runs_operation hphase (hlimited hsome hpos) hwithin operation

theorem Bounded.closing (h : life.Bounded) : (life.after .closing).Bounded := by
  rw [after]
  cases hlife : life.phase with
  | closed store => exact h
  | opened engine =>
    refine ⟨?_, ?_⟩
    · intro engine hopened
      cases hopened
    · intro limit hpos hsteady
      have hruns := h.runs limit hpos hsteady
      rw [hlife] at hruns
      obtain ⟨hsome, rfl, hwithin⟩ := hruns
      exact Layered.within_runs_close (h.memtable engine hlife hsome hpos) hwithin

/-- What happens to a store keeps its layers bounded. -/
theorem Bounded.after (h : life.Bounded) (hunder : life.Under operator) (act : Act) :
    (life.after act).Bounded := by
  cases act with
  | opening options => exact h.opening options
  | operation operation => exact h.operation hunder operation
  | closing => exact h.closing

end

theorem bounded_of (acts : List Act) : (of acts).Bounded := by
  induction acts using List.reverseRecOn with
  | nil => exact bounded_start
  | append_singleton acts act ih =>
    obtain ⟨operator, hunder⟩ := under_of acts
    rw [of, List.foldl_append]
    exact ih.after hunder act

/-- An engine that is open with an operator and a limit never has more operands of a key in its
memtable than the limit, whatever happened to its store before.  If the store was always opened
with an operator and that limit, it never has more operands of a key than the limit for each run
and once more for the memtable. -/
theorem operands_le_limit (acts : List Act) {engine : Layered}
    (hopened : (of acts).phase = .opened engine) (hsome : engine.operator.isSome)
    (hlimit : engine.limit ≠ 0) :
    (∀ key, engine.memtableOperands key ≤ engine.limit.toNat) ∧
      ((∀ options ∈ (of acts).openings,
          options.operator.isSome ∧ options.maxSuccessiveMerges = engine.limit) →
        ∀ key, engine.pendingOperands key ≤ engine.limit.toNat * (engine.runs.length + 1)) := by
  have hbounded := bounded_of acts
  have hmemtable := hbounded.memtable engine hopened hsome hlimit
  refine ⟨hmemtable, ?_⟩
  intro hsteady key
  -- the same limit bounds each run, and there are as many layers as runs and a memtable
  have hruns := hbounded.runs engine.limit hlimit hsteady
  rw [hopened] at hruns
  obtain ⟨-, -, hwithin⟩ := hruns
  exact Layers.pendingOperands_le hmemtable hwithin key

/-- A batch that puts and merges, a run that is a closed memtable, and a run that was flushed,
all under the limit two: one key shows its operands in both runs and in the memtable. -/
theorem operands_le_limit_two :
    let options : Options := ⟨some .associative, 2, true⟩
    let acts : List Act :=
      [.opening options,
        .operation (.write [.merge [1] [5], .put [2] [7], .merge [1] [6], .merge [2] [8]]),
        .closing, .opening ⟨some .fullPartial, 9, true⟩, .opening options,
        .operation (.merge [1] [4]), .operation (.merge [1] [4]), .operation .flush,
        .operation (.merge [1] [3]), .operation (.merge [1] [3]), .operation (.merge [1] [3]),
        .operation (.get [1])]
    ∃ engine, (of acts).phase = .opened engine ∧ engine.runs.length = 2 ∧
      engine.pendingOperands [1] = 5 ∧ engine.memtableOperands [1] ≤ 2 ∧
      engine.pendingOperands [1] ≤ 2 * (engine.runs.length + 1) := by
  intro options acts
  have hopened : ∃ engine, (of acts).phase = .opened engine ∧ engine.operator.isSome ∧
      engine.limit = 2 ∧ engine.runs.length = 2 ∧ engine.pendingOperands [1] = 5 :=
    ⟨_, rfl, by decide +kernel, by decide +kernel, by decide +kernel, by decide +kernel⟩
  obtain ⟨engine, hopened, hsome, hlimit, hruns, hpending⟩ := hopened
  have hsteady : ∀ opening ∈ (of acts).openings,
      opening.operator.isSome ∧ opening.maxSuccessiveMerges = 2 := by decide +kernel
  obtain ⟨hmemtable, hlayers⟩ := operands_le_limit acts hopened hsome (by rw [hlimit]; decide)
  rw [hlimit] at hmemtable hlayers
  exact ⟨engine, hopened, hruns, hpending, hmemtable [1], hlayers hsteady [1]⟩

end Life
end LazyTally
