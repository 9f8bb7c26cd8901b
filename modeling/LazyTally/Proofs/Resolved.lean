import LazyTally.Proofs.OperatorLaws

/-!
# What operands resolve to

The two operators on counters have one closed form between them.  Operands over a value, and
two or more operands over nothing, resolve to the stored sum of all of them, whatever is
malformed counting as zero.  Only a single operand over nothing tells the kinds apart: one
keeps its bytes, the other stores the counter that they stand for.

## Main definitions

* `OperatorKind.resolved` — the closed form.

## Main results

* `Counter.encode_count_eq_iff` — eight bytes are the stored form of what they stand for, and
  no other bytes are.
* `OperatorKind.foldl_stepwise` — operands that are taken one at a time give the closed form.
* `OperatorKind.meaning_stepwise` — and so does the chain of a history.
-/

namespace LazyTally

namespace Counter

/-- Malformed bytes stand for zero. -/
theorem count_of_length_ne {bytes : Bytes} (h : bytes.length ≠ size) : count bytes = 0 := by
  rw [count, decode?, if_neg h]
  rfl

theorem decode?_of_length_ne {bytes : Bytes} (h : bytes.length ≠ size) : decode? bytes = none := by
  rw [decode?, if_neg h]

theorem decode?_of_length {bytes : Bytes} (h : bytes.length = size) :
    decode? bytes = some (count bytes) := by
  rw [count, decode?, if_pos h]
  rfl

theorem encode_injective : Function.Injective encode := by
  intro value other h
  have hdecode := congrArg decode? h
  rw [decode?_encode, decode?_encode] at hdecode
  exact Option.some.inj hdecode

theorem encode_count_eq_iff {bytes : Bytes} :
    encode (count bytes) = bytes ↔ bytes.length = size := by
  constructor
  · intro h
    rw [← h, length_encode]
  · intro h
    exact encode_of_decode? (decode?_of_length h)

end Counter

open Counter (encode count)

/-- Onto a value, additions give the sum of all operands. -/
theorem Operator.foldl_stepwise_addition (key existing operand : Bytes) (rest : List Bytes) :
    (operand :: rest).foldl (addition.toOperator.stepwise key).merge (some existing) =
      some (encode (Counter.total (existing :: operand :: rest))) := by
  induction rest generalizing existing operand with
  | nil =>
    rw [List.foldl_cons, merge_stepwise_addition, plus, Counter.total_cons,
      Counter.total_singleton]
    rfl
  | cons next rest ih =>
    rw [List.foldl_cons, merge_stepwise_addition, ih]
    simp only [plus, Counter.total_cons, Counter.count_encode, UInt64.add_assoc]

namespace OperatorKind

/-- What operands resolve to over an existing value. -/
def resolved (kind : OperatorKind) : Option Bytes → List Bytes → Option Bytes
  | existing, [] => existing
  | none, [operand] =>
      match kind with
      | .associative => some operand
      | .fullPartial => some (encode (count operand))
  | existing, operands => some (encode (Counter.total (existing.toList ++ operands)))

theorem resolved_some (kind : OperatorKind) (existing operand : Bytes) (rest : List Bytes) :
    kind.resolved (some existing) (operand :: rest) =
      some (encode (Counter.total (existing :: operand :: rest))) := by
  cases rest <;> rfl

theorem foldl_stepwise (kind : OperatorKind) (key : Bytes) (existing : Option Bytes)
    (operands : List Bytes) :
    operands.foldl (kind.operator.stepwise key).merge existing =
      kind.resolved existing operands := by
  cases operands with
  | nil => cases existing <;> rfl
  | cons first rest =>
    cases kind with
    | associative =>
      cases existing with
      | some value =>
        rw [resolved_some]
        exact Operator.foldl_stepwise_addition key value first rest
      | none =>
        -- the first operand is taken as it is, and becomes what the others are added to
        have hfirst := Operator.merge_stepwise_addition key none first
        refine (congrArg (fun seen => rest.foldl _ seen) hfirst).trans ?_
        cases rest with
        | nil => rfl
        | cons second rest => exact Operator.foldl_stepwise_addition key first second rest
    | fullPartial =>
      refine (Operator.foldl_stepwise_summation key existing first rest).trans ?_
      cases existing with
      | some value => exact (resolved_some _ value first rest).symm
      | none =>
        cases rest with
        | nil => exact congrArg (fun sum => some (encode sum)) (Counter.total_singleton first)
        | cons second rest => rfl

theorem meaning_stepwise (kind : OperatorKind) (key : Bytes) (records : List Record) :
    (kind.operator.stepwise key).meaning records =
      kind.resolved (Chain.ofRecords records).value? (Chain.ofRecords records).operands := by
  rw [Reading.meaning, Reading.replay_eq_after, Reading.after, Reading.start_none]
  exact kind.foldl_stepwise key _ _

end OperatorKind
end LazyTally
