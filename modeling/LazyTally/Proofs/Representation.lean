import LazyTally.Proofs.Adoption
import LazyTally.Proofs.ChainLength

/-!
# The representation of layers

Layers are tables in key order, and whatever is done to a store keeps them so: no key occurs twice
in a layer, no key occurs without a record, and no run holds nothing.  What the records of a key
look like depends on how the run came about.  A flush and a compaction leave what a chain needs, at
most one put or delete and operands after it, while a closed memtable is kept as it was written.
Below all other runs a tombstone hides nothing, so a compaction leaves none that stands alone.

## Main definitions

* `Layer.WellFormed`, `Layers.WellFormed` — the order of keys, and nothing that is empty.
* `Layer.BasesFirst` — at most the first record of each key is a put or a delete.
* `Layers.Compacted` — at most one run, and no lone tombstone.
* `Origin`, `Life.origins` — how each run of a store came about.
* `Layers.Represented` — what holds of layers whose runs have such origins.

## Main results

* `Resolution.Condenses.isOperand_of_mem_tail` — only the first record that is left of a chain can
  be a put or a delete.
* `Life.represented_after` — what happens to a store keeps its layers represented.
* `Life.layers_represented` — all layers of all stores, open or closed, are.
-/

namespace LazyTally

/-! ### Well formed layers -/

/-- The keys are in strictly ascending order, and each has a record. -/
structure Layer.WellFormed (layer : Layer) : Prop where
  /-- The keys ascend, so none occurs twice. -/
  ascending : KeyMap.Ascending layer
  /-- No key is without records. -/
  records_ne_nil : ∀ entry ∈ layer, entry.2 ≠ []

/-- Of the records of a key at most the first is a put or a delete. -/
def Layer.BasesFirst (layer : Layer) : Prop :=
  ∀ entry ∈ layer, ∀ record ∈ entry.2.tail, record.isOperand

/-- All layers are well formed, and no run holds nothing. -/
structure Layers.WellFormed (layers : Layers) : Prop where
  /-- The memtable is well formed. -/
  memtable : layers.memtable.WellFormed
  /-- The runs are well formed and hold something. -/
  runs : ∀ run ∈ layers.runs, run.WellFormed ∧ run ≠ []

/-- There is at most one layer that holds something, and it has no tombstone that stands alone. -/
structure Layers.Compacted (layers : Layers) : Prop where
  /-- The memtable holds nothing. -/
  memtable : layers.memtable = []
  /-- There is at most one run. -/
  length_runs : layers.runs.length ≤ 1
  /-- A tombstone is kept for operands only. -/
  ne_delete : ∀ run ∈ layers.runs, ∀ entry ∈ run, entry.2 ≠ [.delete]

/-- After a change there are the old entries, and what the changed key has now. -/
theorem KeyMap.eq_or_mem_of_mem_alter {α : Type} {f : Option α → α} {map : KeyMap α} {key : Bytes}
    {entry : Bytes × α} (h : entry ∈ alter f map key) :
    (∃ old, entry = (key, f old)) ∨ entry ∈ map := by
  induction map with
  | nil => exact .inl ⟨none, List.mem_singleton.mp h⟩
  | cons first rest ih =>
    rw [alter] at h
    split at h
    · rcases List.mem_cons.mp h with hnew | hold
      · exact .inl ⟨none, hnew⟩
      · exact .inr hold
    · next heq =>
      rcases List.mem_cons.mp h with hnew | hold
      · exact .inl ⟨some first.2, by rw [hnew, Bytes.order_eq_eq.mp heq]⟩
      · exact .inr (List.mem_cons_of_mem first hold)
    · rcases List.mem_cons.mp h with hfirst | hrest
      · exact .inr (List.mem_cons.mpr (.inl hfirst))
      · exact (ih hrest).imp_right (List.mem_cons_of_mem first)

namespace Layer.WellFormed

variable {layer : Layer}

theorem nil : Layer.WellFormed [] := ⟨List.Pairwise.nil, nofun⟩

/-- A change that leaves its key a record keeps a layer well formed. -/
theorem alter (h : layer.WellFormed) {f : Option (List Record) → List Record}
    (hf : ∀ old, f old ≠ []) (key : Bytes) : Layer.WellFormed (KeyMap.alter f layer key) := by
  refine ⟨KeyMap.ascending_alter h.ascending key, ?_⟩
  intro entry hmem
  rcases KeyMap.eq_or_mem_of_mem_alter hmem with ⟨old, rfl⟩ | hold
  · exact hf old
  · exact h.records_ne_nil entry hold

theorem push (h : layer.WellFormed) (write : Write) : (layer.push write).WellFormed :=
  h.alter (fun _ => List.append_ne_nil_of_right_ne_nil _ (List.cons_ne_nil write.record [])) _

theorem foldl_push (h : layer.WellFormed) (batch : Batch) :
    Layer.WellFormed (batch.foldl Layer.push layer) := by
  induction batch generalizing layer with
  | nil => exact h
  | cons write batch ih => exact ih (h.push write)

end Layer.WellFormed

/-! ### What is left of a chain -/

/-- Every record leaves something in its chain. -/
theorem Chain.ofRecords_ne_empty {records : List Record} (h : records ≠ []) :
    ofRecords records ≠ ⟨none, []⟩ := by
  obtain ⟨record, rest, rfl⟩ := List.exists_cons_of_ne_nil h
  rw [ofRecords_cons]
  obtain ⟨base, operands⟩ := ofRecords rest
  cases base <;> cases record <;> simp [behind]

namespace Resolution.Condenses

variable {operator : Option Operator} {key : Bytes} {chain : Chain} {bottommost : Bool}
  {left : List Record}

/-- Only the first record that is left can be a put or a delete. -/
theorem isOperand_of_mem_tail (h : Condenses operator key chain bottommost left) :
    ∀ record ∈ left.tail, record.isOperand := by
  have hoperands : ∀ record ∈ chain.operandRecords, record.isOperand := by
    intro record hmem
    obtain ⟨operand, -, rfl⟩ := List.mem_map.mp hmem
    rfl
  cases h with
  | bare hbare =>
    obtain ⟨base, operands⟩ := chain
    rcases base with _ | _ | _ <;> cases bottommost <;> exact nofun
  | kept hne hop =>
    intro record hmem
    obtain ⟨base, operands⟩ := chain
    -- the base, if there is one, is the first record
    cases base with
    | none => exact hoperands record (List.mem_of_mem_tail hmem)
    | some base => exact hoperands record hmem
  | settled => exact nofun
  | joined => exact nofun
  | unsettled => exact fun record hmem => hoperands record (List.mem_of_mem_tail hmem)

/-- Above other runs something is left of every history. -/
theorem ne_nil {records : List Record} (hne : records ≠ [])
    (h : Condenses operator key (Chain.ofRecords records) false left) : left ≠ [] := by
  have hchain := Chain.ofRecords_ne_empty hne
  generalize Chain.ofRecords records = chain at h hchain
  obtain ⟨base, operands⟩ := chain
  cases h with
  | bare hbare =>
    obtain rfl : operands = [] := hbare
    rcases base with _ | _ | _
    · -- a chain of no record at all
      exact absurd rfl hchain
    · exact List.cons_ne_nil _ _
    · exact List.cons_ne_nil _ _
  | kept hoperands hop => simpa [Chain.records, Chain.operandRecords] using fun _ => hoperands
  | settled => exact List.cons_ne_nil _ _
  | joined => exact List.cons_ne_nil _ _
  | unsettled hoperands => simpa [Chain.operandRecords] using hoperands

/-- At the bottom no tombstone is left alone. -/
theorem ne_delete (h : Condenses operator key chain true left) : left ≠ [.delete] := by
  obtain ⟨base, operands⟩ := chain
  cases h with
  | bare hbare => rcases base with _ | _ | _ <;> exact nofun
  | kept hne hop =>
    -- an operand comes after the tombstone that is kept for it
    obtain ⟨operand, rest, rfl⟩ := List.exists_cons_of_ne_nil hne
    intro hdelete
    have hmem : .merge operand ∈ [Record.delete] :=
      hdelete ▸ List.mem_append_right _ List.mem_cons_self
    simp at hmem
  | settled => exact nofun
  | joined hne hop hbase hbottom => cases hbottom
  | unsettled hne hop hbase hbottom => cases hbottom

end Resolution.Condenses

/-- A well formed layer is flushed into a well formed run. -/
theorem Layer.WellFormed.condensed {layer : Layer} (h : layer.WellFormed)
    {operator : Option Operator} (htotal : Resolution.Total operator) :
    (layer.condensed operator).WellFormed := by
  refine ⟨ascending_condensed h.ascending operator, ?_⟩
  intro entry hmem
  obtain ⟨old, hold, rfl⟩ := List.mem_map.mp hmem
  exact (Resolution.condenses_condensed htotal old.1 _ false).ne_nil (h.records_ne_nil old hold)

/-- In a flushed run at most the first record of each key is a put or a delete. -/
theorem Layer.basesFirst_condensed (layer : Layer) {operator : Option Operator}
    (htotal : Resolution.Total operator) : (layer.condensed operator).BasesFirst := by
  intro entry hmem
  obtain ⟨old, -, rfl⟩ := List.mem_map.mp hmem
  exact (Resolution.condenses_condensed htotal old.1 _ false).isOperand_of_mem_tail

/-! ### Origins -/

/-- How a run came about. -/
inductive Origin where
  /-- A memtable was flushed. -/
  | flush
  /-- All runs were compacted. -/
  | compaction
  /-- A memtable was closed. -/
  | closing
  deriving DecidableEq, Repr

/-- What is known of a run that came about so.  Only a closed memtable has the records of a key as
they were written. -/
def Origin.Leaves (origin : Origin) (run : Layer) : Prop := origin ≠ closing → run.BasesFirst

/-- The origins of the runs that a memtable becomes: none if it holds nothing. -/
def Origin.ofMemtable (origin : Origin) (memtable : Layer) : List Origin :=
  if memtable.isEmpty then [] else [origin]

/-- The layers are well formed, and the runs are as their origins say, run by run. -/
structure Layers.Represented (origins : List Origin) (layers : Layers) : Prop where
  /-- The layers are well formed. -/
  wellFormed : layers.WellFormed
  /-- Each run has an origin, and is as the origin says. -/
  origins : List.Forall₂ Origin.Leaves origins layers.runs

namespace Layered

variable {engine : Layered}

/-! ### What calls do to the layers -/

theorem wellFormed_limited (h : engine.memtable.WellFormed) (key : Bytes) :
    (engine.limited key).memtable.WellFormed := by
  unfold limited
  split
  · exact h
  · exact h.alter (fun _ => List.cons_ne_nil _ _) key

theorem wellFormed_foldl_limited (h : engine.memtable.WellFormed) (keys : List Bytes) :
    (keys.foldl limited engine).memtable.WellFormed := by
  induction keys generalizing engine with
  | nil => exact h
  | cons key keys ih => exact ih (wellFormed_limited h key)

/-- Of the entries at the bottom each is what a compaction leaves of a chain, and something. -/
theorem condenses_of_mem_bottom (htotal : Resolution.Total engine.operator)
    {entry : Bytes × List Record} (h : entry ∈ engine.bottom) :
    entry.2 ≠ [] ∧
      Resolution.Condenses engine.operator entry.1 (engine.chain entry.1) true entry.2 := by
  obtain ⟨hmem, hkept⟩ := List.mem_filter.mp h
  obtain ⟨key, -, rfl⟩ := List.mem_map.mp hmem
  exact ⟨by simpa using hkept, Resolution.condenses_condensed htotal key _ true⟩

/-- In the runs that a compaction leaves each entry is what is left of a chain. -/
theorem condenses_of_mem_compacted (htotal : Resolution.Total engine.operator) {run : Layer}
    (hrun : run ∈ engine.compacted.runs) {entry : Bytes × List Record} (h : entry ∈ run) :
    entry.2 ≠ [] ∧
      Resolution.Condenses engine.operator entry.1 (engine.flushed.chain entry.1) true entry.2 := by
  obtain ⟨rfl, -⟩ := eq_of_mem_bottomRuns hrun
  have hentry := condenses_of_mem_bottom (engine.operator_flushed ▸ htotal) h
  rwa [operator_flushed] at hentry

/-- A compaction leaves compacted layers, with an operator or without. -/
theorem compacted_compacted (htotal : Resolution.Total engine.operator) :
    engine.compacted.toLayers.Compacted := by
  refine ⟨memtable_compacted engine, ?_, ?_⟩
  · show (bottomRuns engine.flushed.bottom).length ≤ 1
    unfold bottomRuns
    split
    · exact Nat.zero_le 1
    · exact Nat.le_refl 1
  · intro run hrun entry hmem
    exact (condenses_of_mem_compacted htotal hrun hmem).2.ne_delete

end Layered

namespace Layers.Represented

variable {origins : List Origin} {engine : Layered}

/-- A memtable becomes the newest run, as it is or condensed. -/
theorem append_run (h : engine.toLayers.Represented origins) {origin : Origin} {run : Layer}
    (hrun : run.WellFormed) (hne : run ≠ []) (hleaves : origin.Leaves run) :
    Layers.Represented (origins ++ [origin]) ⟨[], engine.runs ++ [run]⟩ := by
  refine ⟨⟨Layer.WellFormed.nil, ?_⟩, List.rel_append h.origins (.cons hleaves .nil)⟩
  intro older hmem
  rcases List.mem_append.mp hmem with hold | hnew
  · exact h.wellFormed.runs older hold
  · rw [List.mem_singleton.mp hnew]
    exact ⟨hrun, hne⟩

theorem written (h : engine.toLayers.Represented origins) (batch : Batch) :
    (engine.written batch).toLayers.Represented origins := by
  refine ⟨⟨?_, ?_⟩, ?_⟩
  · have hpushed : (engine.pushed batch).memtable.WellFormed :=
      h.wellFormed.memtable.foldl_push batch
    exact Layered.wellFormed_foldl_limited hpushed batch.mergedKeys
  · rw [Layered.runs_written]
    exact h.wellFormed.runs
  · rw [Layered.runs_written]
    exact h.origins

theorem flushed (h : engine.toLayers.Represented origins)
    (htotal : Resolution.Total engine.operator) :
    engine.flushed.toLayers.Represented (origins ++ Origin.flush.ofMemtable engine.memtable) := by
  unfold Layered.flushed
  split
  · next hempty =>
    rw [Origin.ofMemtable, if_pos hempty, List.append_nil]
    exact h
  · next hsome =>
    have hne : engine.memtable.condensed engine.operator ≠ [] := by
      simpa [Layer.condensed] using hsome
    rw [Origin.ofMemtable, if_neg hsome]
    exact h.append_run (h.wellFormed.memtable.condensed htotal) hne
      fun _ => engine.memtable.basesFirst_condensed htotal

theorem compacted (htotal : Resolution.Total engine.operator) :
    engine.compacted.toLayers.Represented (engine.compacted.runs.map fun _ => .compaction) := by
  refine ⟨⟨?_, ?_⟩, ?_⟩
  · rw [Layered.memtable_compacted]
    exact Layer.WellFormed.nil
  · intro run hrun
    have hne : run ≠ [] := (Layered.eq_of_mem_bottomRuns hrun).2
    refine ⟨⟨(Layered.ascending_compacted engine).2 run hrun, ?_⟩, hne⟩
    intro entry hmem
    exact (Layered.condenses_of_mem_compacted htotal hrun hmem).1
  · rw [List.forall₂_map_left_iff, List.forall₂_same]
    intro run hrun _ entry hmem
    exact (Layered.condenses_of_mem_compacted htotal hrun hmem).2.isOperand_of_mem_tail

theorem close (h : engine.toLayers.Represented origins) :
    Layers.Represented (origins ++ Origin.closing.ofMemtable engine.memtable)
      ⟨[], engine.close.runs⟩ := by
  unfold Layered.close
  dsimp only
  split
  · next hempty =>
    rw [Origin.ofMemtable, if_pos hempty, List.append_nil]
    exact ⟨⟨Layer.WellFormed.nil, h.wellFormed.runs⟩, h.origins⟩
  · next hsome =>
    have hne : engine.memtable ≠ [] := fun hnil => hsome (List.isEmpty_iff.mpr hnil)
    rw [Origin.ofMemtable, if_neg hsome]
    exact h.append_run h.wellFormed.memtable hne (absurd rfl)

end Layers.Represented

namespace Layered

variable {engine : Layered} {origins : List Origin}

/-- The origins of the runs after a call, oldest first.  A flush adds the run that the memtable
becomes, and a compaction replaces all runs. -/
def originsAfter (engine : Layered) (origins : List Origin) : Engine.Operation → List Origin
  | .flush => origins ++ Origin.flush.ofMemtable engine.memtable
  | .compact => (Layered.engine.compact.after engine).runs.map fun _ => .compaction
  | .put _ _ | .get _ | .delete _ | .merge _ _ | .write _ | .dump => origins

/-- A call keeps the layers represented. -/
theorem represented_operation (h : engine.toLayers.Represented origins)
    (htotal : Resolution.Total engine.operator) (operation : Engine.Operation) :
    ((operation.call Layered.engine).after engine).toLayers.Represented
      (engine.originsAfter origins operation) := by
  have hwrite : ∀ batch, ((write batch).after engine).toLayers.Represented origins := by
    intro batch
    rw [(gives_written htotal batch).2]
    exact h.written batch
  cases operation with
  | put key value => exact hwrite [.put key value]
  | delete key => exact hwrite [.delete key]
  | merge key operand => exact hwrite [.merge key operand]
  | write batch => exact hwrite batch
  | flush =>
    -- a flush adds a run of its own origin above the others
    show (Layered.flush.after engine).toLayers.Represented _
    rw [(gives_flush htotal).2]
    exact h.flushed htotal
  | compact =>
    -- a compaction leaves one run at most, whatever the runs before it came from
    show (Layered.compact.after engine).toLayers.Represented
      ((Layered.compact.after engine).runs.map fun _ => .compaction)
    rw [(gives_compact htotal).2]
    exact .compacted htotal
  | get key =>
    rw [Engine.Operation.call, Call.after_bind_pure]
    exact h
  | dump =>
    rw [Engine.Operation.call, Call.after_bind_pure]
    exact h

end Layered

/-! ### Lives -/

namespace Life

/-- The layers of the store; a closed store has nothing in front of its runs. -/
def layers (life : Life) : Layers :=
  match life.phase with
  | .opened engine => engine.toLayers
  | .closed store => ⟨[], store.runs⟩

/-- The origins of the runs after something happened to the store, oldest first.  A closing adds
the run that the memtable becomes, and an opening takes the runs as they are. -/
def originsAfter (life : Life) (origins : List Origin) : Act → List Origin
  | .opening _ => origins
  | .operation operation =>
      match life.phase with
      | .opened engine => engine.originsAfter origins operation
      | .closed _ => origins
  | .closing =>
      match life.phase with
      | .opened engine => origins ++ Origin.closing.ofMemtable engine.memtable
      | .closed _ => origins

/-- The origins after all that happened to a store whose runs had known origins before. -/
def originsFrom (life : Life) (origins : List Origin) : List Act → List Origin
  | [] => origins
  | act :: acts => originsFrom (life.after act) (life.originsAfter origins act) acts

/-- How each run of the store came about, oldest first. -/
def origins (acts : List Act) : List Origin := start.originsFrom [] acts

section

variable {life : Life} {operator : Option OperatorKind} {origins : List Origin}

theorem layers_of_opened {engine : Layered} (h : life.phase = .opened engine) :
    life.layers = engine.toLayers := by rw [layers, h]

theorem layers_of_closed {store : Store} (h : life.phase = .closed store) :
    life.layers = ⟨[], store.runs⟩ := by rw [layers, h]

theorem represented_start : start.layers.Represented [] :=
  ⟨⟨Layer.WellFormed.nil, nofun⟩, .nil⟩

/-- An engine is opened over the runs of the closed store. -/
theorem represented_opening (h : life.layers.Represented origins) (options : Options) :
    (life.after (.opening options)).layers.Represented origins := by
  rcases after_opening life options with ⟨hsame, -⟩ | ⟨store, hclosed, hopened, -⟩
  · rw [layers, hsame]
    exact h
  · rw [layers_of_closed hclosed] at h
    rw [layers_of_opened hopened]
    exact h

theorem represented_operation (h : life.layers.Represented origins) (hunder : life.Under operator)
    (operation : Engine.Operation) :
    (life.after (.operation operation)).layers.Represented
      (life.originsAfter origins (.operation operation)) := by
  have hphase := hunder.phase
  cases hlife : life.phase with
  | closed store =>
    -- a closed store refuses every operation
    have hsame : life.after (.operation operation) = life := by rw [after, hlife]
    rw [hsame, originsAfter, hlife]
    exact h
  | opened engine =>
    rw [layers_of_opened hlife] at h
    rw [hlife] at hphase
    rw [after, originsAfter, hlife]
    exact Layered.represented_operation h hphase.total operation

theorem represented_closing (h : life.layers.Represented origins) :
    (life.after .closing).layers.Represented (life.originsAfter origins .closing) := by
  cases hlife : life.phase with
  | closed store =>
    have hsame : life.after .closing = life := by rw [after, hlife]
    rw [hsame, originsAfter, hlife]
    exact h
  | opened engine =>
    rw [layers_of_opened hlife] at h
    rw [after, originsAfter, hlife]
    exact h.close

/-- What happens to a store keeps its layers represented. -/
theorem represented_after (h : life.layers.Represented origins) (hunder : life.Under operator)
    (act : Act) : (life.after act).layers.Represented (life.originsAfter origins act) := by
  cases act with
  | opening options => exact represented_opening h options
  | operation operation => exact represented_operation h hunder operation
  | closing => exact represented_closing h

theorem represented_foldl (h : life.layers.Represented origins) (hunder : life.Under operator)
    (acts : List Act) :
    (acts.foldl after life).layers.Represented (life.originsFrom origins acts) := by
  induction acts generalizing life operator origins with
  | nil => exact h
  | cons act acts ih =>
    obtain ⟨next, -, hnext⟩ := hunder.after act
    exact ih (represented_after h hunder act) hnext

end

/-- Whatever happens to a store, in its memtable and in each of its runs, while it is open and while
it is closed, the keys ascend strictly and each has a record, and no run holds nothing.  Each run
was flushed, compacted or closed, and unless it was closed, of the records of each of its keys at
most the first is a put or a delete.  Directly after a compaction, which succeeds on every open
engine, there is at most one run and no tombstone that stands alone. -/
theorem layers_represented (acts : List Act) :
    (of acts).layers.WellFormed ∧
    List.Forall₂ Origin.Leaves (origins acts) (of acts).layers.runs ∧
    ∀ engine, (of acts).phase = .opened engine →
      ∃ after, Layered.engine.compact.Gives engine () after ∧
        (of (acts ++ [.operation .compact])).phase = .opened after ∧
        after.toLayers.Compacted := by
  -- the invariant holds before the first act and is kept by every act
  have hall : (of acts).layers.Represented (origins acts) :=
    represented_foldl represented_start under_start acts
  refine ⟨hall.wellFormed, hall.origins, ?_⟩
  intro engine hopened
  obtain ⟨operator, hunder⟩ := under_of acts
  have hphase := hunder.phase
  rw [hopened] at hphase
  have hgives := Layered.gives_compact hphase.total
  refine ⟨engine.compacted, hgives, ?_, Layered.compacted_compacted hphase.total⟩
  -- a life that goes on with a compaction is at what the compaction has left
  have hnext : of (acts ++ [.operation .compact]) = (of acts).after (.operation .compact) :=
    List.foldl_append
  rw [hnext, after, hopened]
  exact congrArg Session.Phase.opened hgives.2

/-- A memtable that was closed without an operator has two bases of one key and a tombstone that
stands alone.  The store is adopted, refuses another operator, and gets a run that was flushed.  A
compaction of both leaves one run without any of that. -/
theorem layers_represented_adopted :
    let adopting : Options := ⟨some .associative, 1, true⟩
    let acts : List Act :=
      [.opening ⟨none, 1, true⟩,
        .operation (.write [.put [1] [7], .delete [1], .merge [1] [5], .delete [2]]), .closing,
        .opening adopting, .operation (.delete [3]), .operation (.merge [3] [4]),
        .operation (.merge [1] [6]), .operation .flush, .closing,
        .opening ⟨some .fullPartial, 0, true⟩, .opening adopting, .operation (.put [4] [8])]
    (of acts).layers.runs =
        [[([1], [.put [7], .delete, .merge [5]]), ([2], [.delete])],
          [([1], [.merge [6]]), ([3], [.put [4]])]] ∧
      (of acts).layers.WellFormed ∧
      List.Forall₂ Origin.Leaves [.closing, .flush] (of acts).layers.runs ∧
      ∃ engine after, (of acts).phase = .opened engine ∧
        Layered.engine.compact.Gives engine () after ∧ after.toLayers.Compacted := by
  intro adopting acts
  have hruns : (of acts).layers.runs =
      [[([1], [.put [7], .delete, .merge [5]]), ([2], [.delete])],
        [([1], [.merge [6]]), ([3], [.put [4]])]] := by decide +kernel
  have horigins : origins acts = [.closing, .flush] := by decide +kernel
  have hopened : ∃ engine, (of acts).phase = .opened engine := by
    cases hphase : (of acts).phase with
    | opened engine => exact ⟨engine, rfl⟩
    | closed store =>
      -- a closed store has no memtable to put anything into
      have hmemtable : (of acts).layers.memtable ≠ [] := by decide +kernel
      rw [layers_of_closed hphase] at hmemtable
      exact absurd rfl hmemtable
  obtain ⟨engine, hopened⟩ := hopened
  obtain ⟨hwellFormed, hleaves, hcompacts⟩ := layers_represented acts
  obtain ⟨after, hgives, -, hcompacted⟩ := hcompacts engine hopened
  exact ⟨hruns, hwellFormed, horigins ▸ hleaves, engine, after, hopened, hgives, hcompacted⟩

end Life
end LazyTally
