import LazyTally.Engine.Resolution
import LazyTally.Proofs.OperatorLaws

/-!
# What becomes of a chain

A flush, a compaction and the chain limit replace the chain of a key by fewer
records.  This module says once what they can leave, and that no reading that the
operator respects can tell the difference.

## Main definitions

* `Resolution.Total`, `Resolution.Respects` — the laws of the configured operator, if
  there is one.
* `Resolution.Condenses` — what a flush or a compaction can leave of a chain.
* `Resolution.condensed` — what it leaves, as a function.
* `Resolution.Shortens` — the record that can replace a chain beyond its limit.

## Main results

* `Resolution.condenses_condensed` — with a total operator, condensing succeeds.
* `Resolution.Condenses.replay`, `Resolution.Shortens.replay` — what is left looks like
  the chain.
* `Resolution.result_read` — a read gives the value of the chain, one operand at a time.
-/

namespace LazyTally
namespace Resolution

open Engine (Event)

/-- The operator, if there is one, gives values. -/
def Total (operator : Option Operator) : Prop := ∀ op, operator = some op → op.Total

/-- The readings cannot tell when the operator, if there is one, merges. -/
def Respects {α : Type} (operator : Option Operator) (readings : Bytes → Reading α) : Prop :=
  ∀ op, operator = some op → ∀ key, op.Respects key (readings key)

theorem respects_none {α : Type} (readings : Bytes → Reading α) : Respects none readings := nofun

/-- The stepwise readings of an operator on counters cannot tell when it merges. -/
theorem respects_stepwise (kind : OperatorKind) :
    Respects (some kind.operator) kind.operator.stepwise := by
  intro op hop key
  obtain rfl := Option.some.inj hop
  exact kind.respects_stepwise key

section

variable {α : Type} {operator : Option Operator} {op : Operator} {key : Bytes} {chain : Chain}
  {readings : Bytes → Reading α}

/-! ### One use of the operator -/

theorem result_full {existing : Option Bytes} {operands : List Bytes} {value : Bytes}
    (h : (op.fullMerge key existing operands).value = some value) :
    (full (some op) key existing operands).result = .ok value := by
  have hmerge : op.fullMerge key existing operands =
      ⟨some value, (op.fullMerge key existing operands).events⟩ := by rw [← h]
  rw [full, hmerge]
  rfl

theorem value_reporting (key : Bytes) (answer : Traced Event (Option Bytes)) :
    Traced.value (do
      let merged ← answer
      if merged.isSome then report (Event.partialMerge key)
      pure merged) = answer.value := by
  obtain ⟨_ | merged, events⟩ := answer <;> rfl

/-- An operand that stands for others is seen as those others. -/
theorem merge_partially {reading : Reading α} (hop : op.Respects key reading)
    {operands : List Bytes} {merged : Bytes}
    (h : (partially op key operands).value = some merged) (seen : α) :
    reading.merge seen merged = operands.foldl reading.merge seen := by
  have hanswer := (value_reporting key _).symm.trans h
  -- the operator is asked in another way for none, one, two and more operands
  rcases operands with _ | ⟨first, _ | ⟨second, _ | ⟨third, rest⟩⟩⟩
  · exact nomatch hanswer
  · dsimp only at hanswer
    by_cases hsingle : op.allowsSingle
    · rw [if_pos hsingle] at hanswer
      exact hop.list (List.cons_ne_nil _ _) hanswer seen
    · rw [if_neg hsingle] at hanswer
      exact nomatch hanswer
  · exact hop.pair hanswer seen
  · exact hop.list (List.cons_ne_nil _ _) hanswer seen

/-! ### Reading a chain -/

theorem result_read_bare (operator : Option Operator) (hbare : chain.operands = []) :
    (read operator key chain).result = .ok chain.value? := by
  rw [read, hbare]
  rfl

theorem result_read_none (hne : chain.operands ≠ []) :
    (read none key chain).result =
      .error (.engineRead ("merge operands for key " ++ key.text
        ++ " but no merge operator configured")) := by
  rw [read, if_neg (by simpa using hne)]
  rfl

/-- A history reads as the value that the operator gives to one operand at a time. -/
theorem result_read (htotal : op.Total) (hop : op.Respects key (op.stepwise key))
    (records : List Record) :
    (read (some op) key (Chain.ofRecords records)).result =
      .ok ((op.stepwise key).meaning records) := by
  rw [Reading.meaning, Reading.replay_eq_after, Reading.after, Reading.start_none]
  generalize Chain.ofRecords records = chain
  by_cases hbare : chain.operands = []
  · rw [result_read_bare (some op) hbare, hbare]
    rfl
  · -- the full merge gives a value, and that is the value of the operands one by one
    obtain ⟨value, hvalue⟩ := htotal key chain.value? chain.operands hbare
    have hfull := hop.full hbare hvalue
    rw [read, if_neg (by simpa using hbare), Attempt.result_map, result_full hvalue, ← hfull]
    rfl

/-! ### What a flush or a compaction leaves -/

/-- What a flush or a compaction can leave of a chain. -/
inductive Condenses (operator : Option Operator) (key : Bytes) (chain : Chain)
    (bottommost : Bool) : List Record → Prop
  /-- There are no operands. -/
  | bare (hbare : chain.operands = []) : Condenses operator key chain bottommost
      (bare chain bottommost)
  /-- There is no operator for the operands. -/
  | kept (hne : chain.operands ≠ []) (hop : operator = none) :
      Condenses operator key chain bottommost chain.records
  /-- What lies under the operands is known. -/
  | settled {op : Operator} {value : Bytes} (hne : chain.operands ≠ [])
      (hop : operator = some op) (hknown : chain.base.isSome ∨ bottommost)
      (hvalue : (op.fullMerge key chain.value? chain.operands).value = some value) :
      Condenses operator key chain bottommost [.put value]
  /-- The operator merges operands although what lies under them is unknown. -/
  | joined {op : Operator} {merged : Bytes} (hne : chain.operands ≠ [])
      (hop : operator = some op) (hbase : chain.base = none) (hbottom : bottommost = false)
      (hflush : op.mergesOnFlush chain.operands)
      (hmerged : (partially op key chain.operands).value = some merged) :
      Condenses operator key chain bottommost [.merge merged]
  /-- What lies under the operands is unknown. -/
  | unsettled {op : Operator} (hne : chain.operands ≠ []) (hop : operator = some op)
      (hbase : chain.base = none) (hbottom : bottommost = false) :
      Condenses operator key chain bottommost chain.operandRecords

theorem result_settle {value : Bytes}
    (h : (op.fullMerge key chain.value? chain.operands).value = some value) :
    (settle (some op) key chain).result = .ok (.put value) := by
  rw [settle, Attempt.result_map, result_full h]
  rfl

/-- With a total operator, condensing succeeds, in one of the ways above. -/
theorem condense_cases (htotal : Total operator) (key : Bytes) (chain : Chain)
    (bottommost : Bool) :
    ∃ records, (condense operator key chain bottommost).result = .ok records ∧
      Condenses operator key chain bottommost records := by
  unfold condense
  by_cases hbare : chain.operands = []
  · rw [if_pos (by simpa using hbare)]
    exact ⟨_, rfl, .bare hbare⟩
  rw [if_neg (by simpa using hbare)]
  cases operator with
  | none => exact ⟨_, rfl, .kept hbare rfl⟩
  | some op =>
    by_cases hknown : chain.base.isSome || bottommost
    · -- something lies under the operands, or it is known that nothing does
      obtain ⟨value, hvalue⟩ := htotal op rfl key chain.value? chain.operands hbare
      refine ⟨[.put value], ?_, .settled hbare rfl (by simpa using hknown) hvalue⟩
      dsimp only
      rw [if_pos hknown, Attempt.result_bind_of_ok (result_settle hvalue)]
      rfl
    · obtain ⟨hbase, hbottom⟩ : chain.base = none ∧ bottommost = false := by simpa using hknown
      dsimp only
      rw [if_neg hknown]
      -- nothing is known, so at best the operator joins the operands
      by_cases hflush : op.mergesOnFlush chain.operands
      · rw [if_pos hflush, Attempt.result_bind_of_ok (Attempt.result_lift _)]
        cases hmerged : (partially op key chain.operands).value with
        | none => exact ⟨_, rfl, .unsettled hbare rfl hbase hbottom⟩
        | some merged => exact ⟨_, rfl, .joined hbare rfl hbase hbottom hflush hmerged⟩
      · rw [if_neg hflush]
        exact ⟨_, rfl, .unsettled hbare rfl hbase hbottom⟩

/-- The records that condensing leaves; none where it fails. -/
def condensed (operator : Option Operator) (key : Bytes) (chain : Chain) (bottommost : Bool) :
    List Record :=
  match (condense operator key chain bottommost).result with
  | .ok records => records
  | .error _ => []

theorem result_condense (htotal : Total operator) (key : Bytes) (chain : Chain)
    (bottommost : Bool) :
    (condense operator key chain bottommost).result =
      .ok (condensed operator key chain bottommost) := by
  obtain ⟨records, hresult, -⟩ := condense_cases htotal key chain bottommost
  rw [condensed, hresult]

theorem condenses_condensed (htotal : Total operator) (key : Bytes) (chain : Chain)
    (bottommost : Bool) :
    Condenses operator key chain bottommost (condensed operator key chain bottommost) := by
  obtain ⟨records, hresult, hcases⟩ := condense_cases htotal key chain bottommost
  rw [condensed, hresult]
  exact hcases

theorem condensed_nil (operator : Option Operator) (key : Bytes) (bottommost : Bool) :
    condensed operator key (Chain.ofRecords []) bottommost = [] := rfl

/-- What is left looks like the chain; at the bottom, like the chain over nothing. -/
theorem Condenses.replay (hop : Respects operator readings) {bottommost : Bool}
    {records : List Record} (h : Condenses operator key chain bottommost records) {seen : α}
    (hseen : bottommost → seen = (readings key).value none) :
    (readings key).replay seen records = (readings key).after seen chain := by
  cases h with
  | bare hbare =>
    obtain ⟨base, operands⟩ := chain
    obtain rfl : operands = [] := hbare
    rcases base with _ | bytes | _
    · rfl
    · rfl
    · -- a tombstone that is dropped at the bottom hid nothing
      cases bottommost with
      | false => rfl
      | true => exact hseen rfl
  | kept hne hnone => rw [Reading.replay_eq_after, Chain.ofRecords_records]
  | settled hne hsome hknown hvalue =>
    have hfull := (hop _ hsome key).full hne hvalue
    -- the operands start from what is known: the base, or nothing at the bottom
    have hstart : (readings key).start seen chain = (readings key).value chain.value? := by
      rcases hknown with hbase | hbottom
      · obtain ⟨base, hbase⟩ := Option.isSome_iff_exists.mp hbase
        rw [Reading.start, Chain.value?, hbase]
        rfl
      · rw [hseen hbottom, Reading.start_none]
    rw [Reading.after, hstart, ← hfull]
    rfl
  | joined hne hsome hbase hbottom hflush hmerged =>
    rw [Reading.after, Reading.start, hbase]
    exact merge_partially (hop _ hsome key) hmerged seen
  | unsettled hne hsome hbase hbottom =>
    rw [Chain.operandRecords, Reading.replay_map_merge, Reading.after, Reading.start, hbase]

/-! ### What replaces a chain beyond its limit -/

/-- The record that can replace a chain beyond its limit. -/
inductive Shortens (op : Operator) (key : Bytes) (chain : Chain) : Record → Prop
  /-- A put or a delete lies under the operands. -/
  | settled {value : Bytes} (hbase : chain.base.isSome)
      (hvalue : (op.fullMerge key chain.value? chain.operands).value = some value) :
      Shortens op key chain (.put value)
  /-- What lies under the operands is unknown. -/
  | joined {merged : Bytes} (hbase : chain.base = none)
      (hmerged : (partially op key chain.operands).value = some merged) :
      Shortens op key chain (.merge merged)

/-- With a total operator, shortening a chain succeeds: it gives a record, or the
operator keeps the operands. -/
theorem shorten_cases (htotal : op.Total) (key : Bytes) (hne : chain.operands ≠ []) :
    (∃ record, (shorten op key chain).result = .ok (some record) ∧ Shortens op key chain record) ∨
      ((shorten op key chain).result = .ok none ∧ chain.base = none ∧
        (partially op key chain.operands).value = none) := by
  unfold shorten
  by_cases hbase : chain.base.isSome
  · obtain ⟨value, hvalue⟩ := htotal key chain.value? chain.operands hne
    refine .inl ⟨.put value, ?_, .settled hbase hvalue⟩
    rw [if_pos hbase, Attempt.result_map, result_settle hvalue]
    rfl
  · -- over an unknown value the operator may decline
    have hnone : chain.base = none := by simpa using hbase
    rw [if_neg hbase, Attempt.result_bind_of_ok (Attempt.result_lift _)]
    cases hmerged : (partially op key chain.operands).value with
    | none => exact .inr ⟨rfl, hnone, rfl⟩
    | some merged => exact .inl ⟨.merge merged, rfl, .joined hnone hmerged⟩

/-- The record that replaces a chain looks like the chain. -/
theorem Shortens.replay {reading : Reading α} (hop : op.Respects key reading)
    (hne : chain.operands ≠ []) {record : Record} (h : Shortens op key chain record) (seen : α) :
    reading.replay seen [record] = reading.after seen chain := by
  cases h with
  | settled hbase hvalue =>
    obtain ⟨base, hbase⟩ := Option.isSome_iff_exists.mp hbase
    have hfull := hop.full hne hvalue
    rw [Chain.value?, hbase] at hfull
    rw [Reading.after, Reading.start, hbase]
    exact hfull
  | joined hbase hmerged =>
    rw [Reading.after, Reading.start, hbase]
    exact merge_partially hop hmerged seen

/-! ### What the limit leaves -/

/-- The record with which a limit replaces a chain in the memtable; none if the chain stays. -/
def replacement? (operator : Option Operator) (limit : UInt64) (key : Bytes) (chain : Chain) :
    Option Record :=
  match operator with
  | none => none
  | some op =>
      if limit = 0 ∨ chain.operands.length ≤ limit.toNat then none
      else
        match (shorten op key chain).result with
        | .ok record => record
        | .error _ => none

/-- With a total operator, a chain stays because nothing demands that it is shortened or because
the operator keeps its operands, and else it is replaced by a shorter one. -/
theorem replacement?_cases (htotal : Total operator) (limit : UInt64) (key : Bytes)
    (chain : Chain) :
    (replacement? operator limit key chain = none ∧
        (operator = none ∨ limit = 0 ∨ chain.operands.length ≤ limit.toNat)) ∨
      ∃ op, operator = some op ∧ limit ≠ 0 ∧ limit.toNat < chain.operands.length ∧
        (shorten op key chain).result = .ok (replacement? operator limit key chain) ∧
        ((∃ record, replacement? operator limit key chain = some record ∧
            Shortens op key chain record) ∨
          (replacement? operator limit key chain = none ∧ chain.base = none ∧
            (partially op key chain.operands).value = none)) := by
  cases operator with
  | none => exact .inl ⟨rfl, .inl rfl⟩
  | some op =>
    by_cases hwithin : limit = 0 ∨ chain.operands.length ≤ limit.toNat
    · exact .inl ⟨if_pos hwithin, .inr hwithin⟩
    · obtain ⟨hpos, hlong⟩ := not_or.mp hwithin
      have hlong : limit.toNat < chain.operands.length := Nat.lt_of_not_le hlong
      have hne : chain.operands ≠ [] := List.ne_nil_of_length_pos (Nat.zero_lt_of_lt hlong)
      refine .inr ⟨op, rfl, hpos, hlong, ?_⟩
      -- the answer of the operator decides
      have hanswer : replacement? (some op) limit key chain =
          match (shorten op key chain).result with
          | .ok record => record
          | .error _ => none := if_neg hwithin
      rcases shorten_cases (htotal op rfl) key hne with ⟨record, hresult, hshort⟩ |
        ⟨hresult, hbase, hnone⟩ <;> rw [hresult] at hanswer ⊢ <;> rw [hanswer]
      · exact ⟨rfl, .inl ⟨record, rfl, hshort⟩⟩
      · exact ⟨rfl, .inr ⟨rfl, hbase, hnone⟩⟩

/-- The records that a limit leaves of those that a key has in the memtable. -/
def limited (operator : Option Operator) (limit : UInt64) (key : Bytes) (records : List Record) :
    List Record :=
  match replacement? operator limit key (Chain.ofRecords records) with
  | none => records
  | some record => [record]

end
end Resolution
end LazyTally
