import LazyTally.Proofs.Metering
import LazyTally.Proofs.OperatorLaws

/-!
# Malformed inputs of a merge

An operator on counters reports each input that is no counter and takes it for zero.  Lists are
summed as they are, so there every input is read once.  An operator that takes one operand at a
time reads what it has so far again with each operand.  Still it reports no input twice and nothing
of its own: from the first sum on, what it has so far is a stored counter.  An input is left
unread only if there is nothing to add it to and nothing that is added to it.

## Main definitions

* `Traced.malformed` — the reports of malformed inputs, with key and size.
* `Counter.malformed` — the inputs that are no counters.
* `OperatorKind.Reads` — the operator reads the inputs of a merge at all.
* `Traced.CountsMalformed` — a merge reports the malformed ones of its inputs once each, in order,
  and this is what statistics see of it.

## Main results

* `Operator.combineOnto_eq_fold` — merging a list pair by pair is folding it.
* `Operator.malformed_fold` — a fold of additions reports its inputs and no intermediate result.
* `OperatorKind.malformed_counted_once` — what each merge of either operator reports and counts.
-/

namespace LazyTally

/-- The inputs that are no counters. -/
def Counter.malformed (inputs : List Bytes) : List Bytes :=
  inputs.filter fun value => value.length ≠ size

/-- The key and the size that a report of a malformed input tells. -/
def Operator.Event.malformed? : Event → Option (Bytes × Nat)
  | .malformed key size => some (key, size)
  | _ => none

namespace Traced

variable {α β : Type}

/-- The reports of malformed inputs, oldest first. -/
def malformed (x : Traced Operator.Event α) : List (Bytes × Nat) :=
  x.events.filterMap Operator.Event.malformed?

@[simp] theorem malformed_pure (a : α) : (pure a : Traced Operator.Event α).malformed = [] := rfl

@[simp] theorem malformed_bind (x : Traced Operator.Event α)
    (next : α → Traced Operator.Event β) :
    (x >>= next).malformed = x.malformed ++ (next x.value).malformed := List.filterMap_append

@[simp] theorem malformed_report (event : Operator.Event) :
    (report event : Traced Operator.Event Unit).malformed = event.malformed?.toList := by
  cases event <;> rfl

/-- The statistics of an operator see its reports of malformed inputs and nothing else. -/
theorem tickers_eq_replicate (x : Traced Operator.Event α) :
    x.tickers Operator.Event.ticker? = List.replicate x.malformed.length .corruptOperand := by
  have hview : Operator.Event.ticker? =
      fun event => event.malformed?.map fun _ => Ticker.corruptOperand := by
    funext event
    cases event <;> rfl
  rw [tickers, hview, ← List.map_filterMap, List.map_const']
  rfl

end Traced

/-! ### What the operators report -/

namespace Counter

/-- What is reported of inputs: the size of each that is no counter. -/
def reports (key : Bytes) (inputs : List Bytes) : List (Bytes × Nat) :=
  (malformed inputs).map fun value => (key, value.length)

theorem reports_append (key : Bytes) (inputs others : List Bytes) :
    reports key (inputs ++ others) = reports key inputs ++ reports key others := by
  rw [reports, malformed, List.filter_append, List.map_append]
  rfl

theorem reports_cons (key value : Bytes) (rest : List Bytes) :
    reports key (value :: rest) = reports key [value] ++ reports key rest :=
  reports_append key [value] rest

/-- Of a stored counter nothing is reported. -/
theorem reports_encode_cons (key : Bytes) (value : UInt64) (rest : List Bytes) :
    reports key (encode value :: rest) = reports key rest := by
  have hsize := length_encode value
  simp [reports, malformed, hsize]

end Counter

namespace Operator

open Counter (reports reports_append reports_cons reports_encode_cons)

variable (key : Bytes)

theorem malformed_countOrZero (value : Bytes) :
    (countOrZero key value).malformed = reports key [value] := by
  unfold countOrZero Counter.decode? reports Counter.malformed
  by_cases hsize : value.length = Counter.size
  · simp [hsize]
  · rw [if_neg hsize, Traced.malformed_bind, Traced.malformed_report, Traced.malformed_pure]
    simp [hsize, Event.malformed?]

/-- A sum reads each input once. -/
theorem malformed_sumOnto (total : UInt64) (values : List Bytes) :
    (sumOnto key total values).malformed = reports key values := by
  induction values generalizing total with
  | nil => rfl
  | cons value rest ih =>
    rw [sumOnto, Traced.malformed_bind, malformed_countOrZero, ih, ← reports_cons]

/-- What becomes of the sum is no matter, if it is not read again. -/
theorem malformed_sumOnto_bind {α : Type} (total : UInt64) (values : List Bytes)
    {next : UInt64 → Traced Event α} (hnext : ∀ sum, (next sum).malformed = []) :
    (sumOnto key total values >>= next).malformed = reports key values := by
  rw [Traced.malformed_bind, malformed_sumOnto, hnext, List.append_nil]

/-- An operand with nothing to add it to is not read. -/
theorem malformed_addition_merge_none (operand : Bytes) :
    (addition.merge key none operand).malformed = [] := rfl

theorem malformed_addition_merge_some (existing operand : Bytes) :
    (addition.merge key (some existing) operand).malformed = reports key [existing, operand] := by
  show Traced.malformed (countOrZero key existing >>= fun base =>
    countOrZero key operand >>= fun delta => report (.added key base delta) >>= fun _ =>
      pure (some (Counter.encode (base + delta)))) = _
  rw [Traced.malformed_bind, Traced.malformed_bind, malformed_countOrZero, malformed_countOrZero,
    reports_cons key existing [operand]]
  exact congrArg (reports key [existing] ++ ·) (List.append_nil _)

/-- A fold of additions reports the value it starts from and its operands, each of them once.  What
it has summed up so far is read again with each operand, but it is a stored counter. -/
theorem malformed_fold (existing operand : Bytes) (rest : List Bytes) :
    (Pairwise.fold (addition.merge key) (some existing) (operand :: rest)).malformed =
      reports key (existing :: operand :: rest) := by
  induction rest generalizing existing operand with
  | nil =>
    rw [Pairwise.fold, Traced.malformed_bind, malformed_addition_merge_some,
      value_addition_merge]
    exact List.append_nil _
  | cons next rest ih =>
    -- what the first step has summed up is well-formed and is not reported again
    have hsum := ih (plus (some existing) operand) next
    rw [plus, reports_encode_cons] at hsum
    rw [Pairwise.fold, Traced.malformed_bind, malformed_addition_merge_some,
      value_addition_merge]
    show _ ++ (Pairwise.fold (addition.merge key) (some (plus (some existing) operand))
      (next :: rest)).malformed = _
    rw [plus, hsum, ← reports_append]
    rfl

/-- To merge a list pair by pair is to fold it onto its first operand. -/
theorem combineOnto_eq_fold (pairwise : Pairwise) (first : Bytes) (operands : List Bytes) :
    combineOnto (pairwise.toOperator.partialMerge key) first operands =
      Pairwise.fold (pairwise.merge key) (some first) operands := by
  induction operands generalizing first with
  | nil => rfl
  | cons operand rest ih =>
    rw [combineOnto, Pairwise.fold]
    show (pairwise.merge key (some first) operand >>= _) = _
    congr 1
    funext merged
    cases merged with
    | none => rfl
    | some merged => exact ih merged

end Operator

/-! ### Each malformed input is counted once -/

/-- A merge under the key reports the malformed ones of the listed inputs once each, in their order,
and no other malformed value.  Statistics that it feeds count as many, and nothing else. -/
structure Traced.CountsMalformed {α : Type} (x : Traced Operator.Event α) (key : Bytes)
    (inputs : List Bytes) : Prop where
  /-- The reports of malformed values are those of the inputs. -/
  reported : x.malformed = (Counter.malformed inputs).map fun value => (key, value.length)
  /-- The ticker of malformed values is raised by their number, wrapping at 2^64. -/
  counted (statistics : Statistics) :
    (statistics.recordAll (x.tickers Operator.Event.ticker?)).get .corruptOperand =
      statistics.get .corruptOperand + UInt64.ofNat (Counter.malformed inputs).length
  /-- No other ticker is raised. -/
  others (statistics : Statistics) (ticker : Ticker) (h : ticker ≠ .corruptOperand) :
    (statistics.recordAll (x.tickers Operator.Event.ticker?)).get ticker = statistics.get ticker

/-- What statistics see of a merge follows from its reports. -/
theorem Traced.countsMalformed {α : Type} {x : Traced Operator.Event α} {key : Bytes}
    {inputs : List Bytes} (h : x.malformed = Counter.reports key inputs) :
    x.CountsMalformed key inputs := by
  have hlength : x.malformed.length = (Counter.malformed inputs).length := by
    rw [h, Counter.reports, List.length_map]
  refine ⟨h, ?_, ?_⟩
  · intro statistics
    rw [Statistics.get_recordAll, tickers_eq_replicate, List.count_replicate_self, hlength]
  · intro statistics ticker hother
    rw [Statistics.get_recordAll, tickers_eq_replicate, List.count_replicate,
      if_neg fun heq => hother (eq_of_beq heq).symm]
    exact UInt64.add_zero _

namespace OperatorKind

/-- A merge reads its inputs.  An operator that takes one operand at a time does so only if there is
something to add an operand to. -/
def Reads (kind : OperatorKind) (existing : Option Bytes) (operands : List Bytes) : Prop :=
  kind = .fullPartial ∨ (existing.isSome ∧ 1 ≤ operands.length) ∨ 2 ≤ operands.length

instance (kind : OperatorKind) (existing : Option Bytes) (operands : List Bytes) :
    Decidable (kind.Reads existing operands) :=
  inferInstanceAs (Decidable (_ ∨ _))

variable (kind : OperatorKind) (key : Bytes)

/-- A full merge reports the inputs that it reads. -/
theorem malformed_fullMerge (existing : Option Bytes) (operands : List Bytes) :
    (kind.operator.fullMerge key existing operands).malformed =
      Counter.reports key
        (if kind.Reads existing operands then existing.toList ++ operands else []) := by
  cases kind with
  | fullPartial =>
    -- every input is read
    rw [if_pos (.inl rfl)]
    exact Operator.malformed_sumOnto_bind key 0 (existing.toList ++ operands) fun _ => rfl
  | associative =>
    show (Pairwise.fold (Operator.addition.merge key) existing operands).malformed = _
    -- over nothing the first operand is read only when there is a second one
    match existing, operands with
    | none, [] => rfl
    | some value, [] => rfl
    | none, [operand] => rfl
    | none, first :: second :: rest =>
      rw [if_pos (by simp [Reads]), Pairwise.fold, Traced.malformed_bind,
        Operator.malformed_addition_merge_none]
      exact Operator.malformed_fold key first second rest
    | some value, operand :: rest =>
      rw [if_pos (by simp [Reads])]
      exact Operator.malformed_fold key value operand rest

/-- An operand that was passed on unread is read with the next one. -/
example : (OperatorKind.associative.operator.fullMerge [107] none [[1], [], [1, 2]]).malformed =
    [([107], 1), ([107], 0), ([107], 2)] := by decide

/-- A partial merge of a pair reads both. -/
theorem malformed_partialMerge (left right : Bytes) :
    (kind.operator.partialMerge key left right).malformed = Counter.reports key [left, right] := by
  cases kind with
  | fullPartial => exact Operator.malformed_sumOnto_bind key 0 [left, right] fun _ => rfl
  | associative => exact Operator.malformed_addition_merge_some key left right

/-- A partial merge of a list reports the operands that it reads. -/
theorem malformed_partialMergeAll (operands : List Bytes) :
    (kind.operator.partialMergeAll key operands).malformed =
      Counter.reports key (if kind.Reads none operands then operands else []) := by
  cases kind with
  | fullPartial =>
    rw [if_pos (.inl rfl)]
    exact Operator.malformed_sumOnto_bind key 0 operands fun _ => rfl
  | associative =>
    show Traced.malformed
      (Operator.combineAll (Operator.addition.toOperator.partialMerge key) operands) = _
    match operands with
    | [] => rfl
    | [operand] => rfl
    | first :: second :: rest =>
      rw [if_pos (by simp [Reads]), Operator.combineAll, Operator.combineOnto_eq_fold]
      exact Operator.malformed_fold key first second rest

/-- Each input that is no counter is counted once.  A full merge counts among the existing value and
the operands, and partial merges among their operands; where nothing is added to anything, nothing
is counted. -/
theorem malformed_counted_once (existing : Option Bytes) (operands : List Bytes)
    (left right : Bytes) :
    (kind.operator.fullMerge key existing operands).CountsMalformed key
        (if kind.Reads existing operands then existing.toList ++ operands else []) ∧
      (kind.operator.partialMerge key left right).CountsMalformed key [left, right] ∧
      (kind.operator.partialMergeAll key operands).CountsMalformed key
        (if kind.Reads none operands then operands else []) :=
  ⟨Traced.countsMalformed (kind.malformed_fullMerge key existing operands),
    Traced.countsMalformed (kind.malformed_partialMerge key left right),
    Traced.countsMalformed (kind.malformed_partialMergeAll key operands)⟩

end OperatorKind
end LazyTally
