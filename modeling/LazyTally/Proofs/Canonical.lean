import Mathlib.Data.List.Sort
import LazyTally.Proofs.Script

/-!
# The canonical form of a store

A compaction with an operator leaves nothing of how the store came about: no tombstone, no
operand, no second record, and no layer but one.  What it leaves depends on the values
alone, so all ways of making the same writes end in the same layers.

## Main definitions

* `Layers.Canonical` — layers that hold values and nothing else.

## Main results

* `Layers.Canonical.unique` — the values determine their canonical layers.
* `Resolution.condensed_bottom` — at the bottom only a value is left of a chain.
* `Layered.OpenUnder.canonical_compacted` — a compaction leaves canonical layers.
* `Layered.compact_canonical` — compactions reach the canonical form, and it is the same for
  all scripts with the same writes.
-/

namespace LazyTally

/-! ### Canonical layers -/

/-- The records of a run are the values of its keys, and no key without a value has any. -/
def Layer.Settled (values : Bytes → Option Bytes) (run : Layer) : Prop :=
  ∀ key records, (key, records) ∈ run ↔ ∃ value, values key = some value ∧ records = [.put value]

/-- The layers hold values and nothing else. -/
structure Layers.Canonical (values : Bytes → Option Bytes) (layers : Layers) : Prop where
  /-- The memtable holds nothing. -/
  memtable : layers.memtable = []
  /-- There is no run if there are no values, and else one run, in key order. -/
  runs : (layers.runs = [] ∧ ∀ key, values key = none) ∨
    ∃ run, layers.runs = [run] ∧ run ≠ [] ∧ KeyMap.Ascending run ∧ run.Settled values

/-- Maps in key order with the same entries are the same. -/
theorem KeyMap.Ascending.eq_of_mem_iff {α : Type} {map other : KeyMap α} (h : map.Ascending)
    (hother : other.Ascending) (hmem : ∀ entry, entry ∈ map ↔ entry ∈ other) : map = other := by
  have hirrefl : Std.Irrefl fun a b : Bytes × α => a.1 < b.1 := ⟨fun a => List.lt_irrefl a.1⟩
  exact List.Pairwise.eq_of_mem_iff h hother hmem

theorem Layer.Settled.exists_value {values : Bytes → Option Bytes} {run : Layer}
    (h : run.Settled values) (hne : run ≠ []) : ∃ key, values key ≠ none := by
  obtain ⟨⟨key, records⟩, hmem⟩ := List.exists_mem_of_ne_nil run hne
  obtain ⟨value, hvalue, -⟩ := (h key records).mp hmem
  exact ⟨key, fun hnone => nomatch hvalue.symm.trans hnone⟩

namespace Layers.Canonical

variable {values : Bytes → Option Bytes} {layers others : Layers}

/-- The values determine their canonical layers. -/
theorem unique (h : layers.Canonical values) (hothers : others.Canonical values) :
    layers = others := by
  obtain ⟨memtable, runs⟩ := layers
  obtain ⟨memtable', runs'⟩ := others
  obtain ⟨rfl, hruns⟩ := h
  obtain ⟨rfl, hruns'⟩ := hothers
  -- it is the values that decide whether there is a run
  rcases hruns with ⟨rfl, hnone⟩ | ⟨run, rfl, hne, hasc, hsettled⟩ <;>
    rcases hruns' with ⟨rfl, hnone'⟩ | ⟨run', rfl, hne', hasc', hsettled'⟩
  · rfl
  · obtain ⟨key, hkey⟩ := hsettled'.exists_value hne'
    exact absurd (hnone key) hkey
  · obtain ⟨key, hkey⟩ := hsettled.exists_value hne
    exact absurd (hnone' key) hkey
  · have hmem : ∀ entry, entry ∈ run ↔ entry ∈ run' := by
      rintro ⟨key, records⟩
      exact (hsettled key records).trans (hsettled' key records).symm
    rw [hasc.eq_of_mem_iff hasc' hmem]

theorem history_eq (h : layers.Canonical values) (key : Bytes) :
    layers.history key = (values key).toList.map Record.put := by
  obtain ⟨memtable, runs⟩ := layers
  obtain ⟨rfl, hruns⟩ := h
  rcases hruns with ⟨rfl, hnone⟩ | ⟨run, rfl, hne, hasc, hsettled⟩
  · rw [hnone key]
    rfl
  · rw [Layers.history_eq, Layer.records_nil, List.append_nil]
    show List.flatMap _ [run] = _
    rw [List.flatMap_singleton, Layer.records]
    -- the only run holds the key if and only if it has a value
    cases hvalue : values key with
    | some value =>
      have hfind := (KeyMap.find?_eq_some_iff hasc).mpr
        ((hsettled key [.put value]).mpr ⟨value, hvalue, rfl⟩)
      rw [hfind]
      rfl
    | none =>
      cases hfind : run.find? key with
      | none => rfl
      | some records =>
        obtain ⟨value, hsome, -⟩ :=
          (hsettled key records).mp ((KeyMap.find?_eq_some_iff hasc).mp hfind)
        rw [hvalue] at hsome
        cases hsome

theorem pendingOperands_eq_zero (h : layers.Canonical values) (key : Bytes) :
    layers.pendingOperands key = 0 := by
  rw [Layers.pendingOperands, Layers.chain, h.history_eq]
  cases values key <;> rfl

end Layers.Canonical

/-! ### What a compaction leaves -/

/-- At the bottom only a value is left of a chain. -/
theorem Resolution.condensed_bottom {op : Operator} {key : Bytes} (htotal : op.Total)
    (hop : op.Respects key (op.stepwise key)) (records : List Record) :
    Resolution.condensed (some op) key (Chain.ofRecords records) true =
      ((op.stepwise key).meaning records).toList.map Record.put := by
  have htotal : Resolution.Total (some op) := fun _ h => Option.some.inj h ▸ htotal
  have hcondenses := Resolution.condenses_condensed htotal key (Chain.ofRecords records) true
  rw [Reading.meaning, Reading.replay_eq_after, Reading.after, Reading.start_none]
  generalize Chain.ofRecords records = chain at hcondenses ⊢
  generalize Resolution.condensed (some op) key chain true = left at hcondenses ⊢
  -- with all runs below, a chain is settled or is no chain, and the operator cannot decline
  cases hcondenses with
  | bare hbare =>
    obtain ⟨base, operands⟩ := chain
    obtain rfl : operands = [] := hbare
    rcases base with _ | bytes | _ <;> rfl
  | kept hne hnone => cases hnone
  | settled hne hsome hknown hvalue =>
    obtain rfl := Option.some.inj hsome
    rw [← hop.full hne hvalue]
    rfl
  | joined hne hsome hbase hbottom => cases hbottom
  | unsettled hne hsome hbase hbottom => cases hbottom

/-- What is left of a value is kept, and what is left of nothing is dropped. -/
theorem filter_settled_eq_some_iff {stored : Option Bytes} {records : List Record} :
    ((some (stored.toList.map Record.put)).filter fun left => !left.isEmpty) = some records ↔
      ∃ value, stored = some value ∧ records = [.put value] := by
  rw [Option.filter_eq_some_iff]
  cases stored with
  | none =>
    -- a key without a value is dropped
    constructor
    · rintro ⟨hsome, hne⟩
      obtain rfl := Option.some.inj hsome
      exact nomatch hne
    · rintro ⟨value, hnone, -⟩
      exact nomatch hnone
  | some value =>
    constructor
    · rintro ⟨hsome, -⟩
      exact ⟨value, rfl, (Option.some.inj hsome).symm⟩
    · rintro ⟨_, hsome, rfl⟩
      obtain rfl := Option.some.inj hsome
      exact ⟨rfl, rfl⟩

namespace Layered

variable {kind : OperatorKind} {engine : Layered}

/-- After a compaction the bottom run holds the values that were there before. -/
theorem OpenUnder.settled_bottom (h : engine.OpenUnder (some kind)) :
    Layer.Settled (fun key => (kind.operator.stepwise key).meaning (engine.history key))
      engine.flushed.bottom := by
  intro key records
  -- the flush in front does not change what is read
  obtain ⟨-, hflushed, htakes⟩ := h.runs_flush
  have hmeaning := htakes (Resolution.respects_stepwise kind) key
  have hmeaning : (kind.operator.stepwise key).meaning (engine.flushed.history key) =
      (kind.operator.stepwise key).meaning (engine.history key) := hmeaning
  rw [← KeyMap.find?_eq_some_iff (ascending_bottom _),
    find?_bottom hflushed.ascending (memtable_flushed engine), hflushed.operator_eq,
    Option.map_some, Layers.chain, Resolution.condensed_bottom kind.total
      (kind.respects_stepwise key), hmeaning]
  exact filter_settled_eq_some_iff

/-- A compaction leaves the canonical layers of the values. -/
theorem OpenUnder.canonical_compacted (h : engine.OpenUnder (some kind)) :
    engine.compacted.toLayers.Canonical fun key =>
      (kind.operator.stepwise key).meaning (engine.history key) := by
  have hsettled := h.settled_bottom
  refine ⟨memtable_compacted engine, ?_⟩
  show (bottomRuns engine.flushed.bottom = [] ∧ _) ∨ ∃ run, bottomRuns engine.flushed.bottom = _ ∧ _
  unfold bottomRuns
  -- a bottom that holds nothing is no run
  by_cases hempty : engine.flushed.bottom.isEmpty
  · rw [if_pos hempty]
    rw [List.isEmpty_iff.mp hempty] at hsettled
    refine .inl ⟨rfl, ?_⟩
    intro key
    cases hvalue : (kind.operator.stepwise key).meaning (engine.history key) with
    | none => rfl
    | some value => exact nomatch (hsettled key [.put value]).mpr ⟨value, hvalue, rfl⟩
  · rw [if_neg hempty]
    have hne : engine.flushed.bottom ≠ [] := fun hnil => hempty (List.isEmpty_iff.mpr hnil)
    exact .inr ⟨_, rfl, hne, ascending_bottom _, hsettled⟩

/-- Engines that read the same have the same layers after a compaction. -/
theorem OpenUnder.compacted_eq {other : Layered} (h : engine.OpenUnder (some kind))
    (hother : other.OpenUnder (some kind))
    (hsame : ∀ key, (kind.operator.stepwise key).meaning (engine.history key) =
      (kind.operator.stepwise key).meaning (other.history key)) :
    engine.compacted.toLayers = other.compacted.toLayers := by
  have hcanonical := h.canonical_compacted
  rw [funext hsame] at hcanonical
  exact hcanonical.unique hother.canonical_compacted

/-- A reachable engine that has an operator is open with one of the two kinds. -/
theorem Reachable.exists_kind (h : engine.Reachable) (hsome : engine.operator.isSome) :
    ∃ kind, engine.OpenUnder (some kind) := by
  obtain ⟨operator, hopen⟩ := h.openUnder
  obtain ⟨kind, rfl⟩ := hopen.exists_kind hsome
  exact ⟨kind, hopen⟩

/-- A script that ends with a compaction leaves the compacted engine. -/
theorem OpenUnder.run_compact {options : Options} {script : Script}
    (h : engine.OpenUnder (some kind)) (hrun : script.run options = .ok engine) :
    Script.run options (script ++ [.compact]) = .ok engine.compacted :=
  Script.run_append hrun ((gives_compact h.total).bind (Call.gives_pure () _))

/-- On every reachable engine with an operator a compaction succeeds and leaves, in one run
or in none, the values that were read before it, each as its only record; a second one
changes nothing.  So all scripts with the same writes, however these are grouped into
batches and whatever else happens between them, end in the same layers once compacted. -/
theorem compact_canonical :
    (∀ engine : Layered, engine.Reachable → engine.operator.isSome →
      ∃ (values : Bytes → Option Bytes) (after again : Layered),
        (∀ key, (Layered.engine.get key).result engine = .ok (values key)) ∧
        Layered.engine.compact.Gives engine () after ∧ after.toLayers.Canonical values ∧
        (∀ key, after.pendingOperands key = 0) ∧
        Layered.engine.compact.Gives after () again ∧ again.toLayers = after.toLayers) ∧
    ∀ (kind : OperatorKind) (options others : Options) (script other : Script),
      options.operator = some kind → others.operator = some kind →
      script.Keeps (some kind) → other.Keeps (some kind) → script.writes = other.writes →
      ∃ after after' : Layered,
        Script.run options (script ++ [.compact]) = .ok after ∧
        Script.run others (other ++ [.compact]) = .ok after' ∧
        after.toLayers = after'.toLayers := by
  constructor
  · -- the compacted layers are canonical, and canonical layers stay as they are
    intro engine hreachable hsome
    obtain ⟨kind, hopen⟩ := hreachable.exists_kind hsome
    obtain ⟨hgives, hafter, htakes⟩ := hopen.runs_compact
    have hcanonical := hopen.canonical_compacted
    have hagain : engine.compacted.compacted.toLayers = engine.compacted.toLayers :=
      hafter.compacted_eq hopen (htakes (Resolution.respects_stepwise kind))
    exact ⟨_, engine.compacted, engine.compacted.compacted, hopen.result_get, hgives, hcanonical,
      hcanonical.pendingOperands_eq_zero, gives_compact hafter.total, hagain⟩
  · intro kind options others script other hkind hkind' hkeeps hkeeps' hwrites
    -- a script is seen through its writes alone, and the canonical form through what is seen
    obtain ⟨engine, hrun, hopen, hsees⟩ := Script.run_eq_ok (hkind ▸ hkeeps)
    obtain ⟨engine', hrun', hopen', hsees'⟩ := Script.run_eq_ok (hkind' ▸ hkeeps')
    rw [hkind] at hopen hsees
    rw [hkind'] at hopen' hsees'
    refine ⟨_, _, hopen.run_compact hrun, hopen'.run_compact hrun', ?_⟩
    refine hopen.compacted_eq hopen' ?_
    intro key
    rw [hsees (Resolution.respects_stepwise kind), hsees' (Resolution.respects_stepwise kind),
      hwrites]

/-- An operand and a tombstone in the memtable are compacted away; two scripts that differ in
batches, flushes, compactions, openings and limits end in the same layers. -/
theorem compact_canonical_tombstone :
    let options : Options := ⟨some .associative, 1, true⟩
    let engine := (Command.delete [1]).call.after
      ((Command.merge [2] [5]).call.after (opened [] none options))
    let script : Script :=
      [.put [1] [7], .delete [1], .merge [2] [5], .flush, .merge [2] (Counter.encode 3), .compact,
        .merge [1] (Counter.encode 4), .reopen ⟨some .associative, 0, true⟩, .delete [2]]
    let other : Script := [.write script.writes]
    engine.Reachable ∧ engine.operator.isSome ∧
      (∃ after, Layered.engine.compact.Gives engine () after ∧ after.memtable = [] ∧
        after.pendingOperands [2] = 0) ∧
      script.Keeps (some .associative) ∧ other.Keeps (some .associative) ∧
      ∃ after after' : Layered,
        Script.run options (script ++ [.compact]) = .ok after ∧
        Script.run options (other ++ [.compact]) = .ok after' ∧
        after.toLayers = after'.toLayers := by
  intro options engine script other
  have hempty : Reachable (opened [] none options) := .opened options (result_ofStore (.inl rfl))
  have hreachable : engine.Reachable := (hempty.called _).called _
  have hsome : engine.operator.isSome := by decide
  have hkeeps : script.Keeps (some .associative) := by decide
  have hkeeps' : other.Keeps (some .associative) := by decide
  obtain ⟨hone, htwo⟩ := compact_canonical
  obtain ⟨values, after, again, -, hgives, hcanonical, hpending, -⟩ := hone engine hreachable hsome
  exact ⟨hreachable, hsome, ⟨after, hgives, hcanonical.memtable, hpending [2]⟩, hkeeps, hkeeps',
    htwo .associative options options script other rfl rfl hkeeps hkeeps'
      (List.append_nil script.writes).symm⟩

end Layered
end LazyTally
