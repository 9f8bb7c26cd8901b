import Mathlib.Logic.Function.Basic
import LazyTally.Proofs.Script

/-!
# Lazy resolution is eager application

The layered engine keeps operands until something forces it to resolve them: a read, a
flush over a put or a delete, a compaction, or the chain limit.  An engine without layers
would apply every write at once.  Readers cannot tell the two apart.

## Main definitions

* `Eager.apply` — a write, applied at once.
* `Eager.values` — the values after a list of writes.

## Main results

* `Eager.values_eq_meaning` — eager values are the stepwise meaning of the histories.
* `Eager.get_run_eq_values` — after every beginning of a script, the layered engine reads
  the eager values.
-/

namespace LazyTally
namespace Eager

/-- Applies a write at once: an operand is merged into the value that is there. -/
def apply (operator : Operator) (values : Bytes → Option Bytes) (write : Write) :
    Bytes → Option Bytes :=
  Function.update values write.key <|
    match write.record with
    | .put value => some value
    | .merge operand => (operator.fullMerge write.key (values write.key) [operand]).value
    | .delete => none

/-- The values after writes, oldest first, on a store that was never written. -/
def values (operator : Operator) (writes : List Write) : Bytes → Option Bytes :=
  writes.foldl (apply operator) fun _ => none

theorem apply_self (operator : Operator) (values : Bytes → Option Bytes) (write : Write) :
    apply operator values write write.key =
      (operator.stepwise write.key).next (values write.key) write.record := by
  rw [apply, Function.update_self]
  cases write.record <;> rfl

theorem apply_of_ne (operator : Operator) (values : Bytes → Option Bytes) {write : Write}
    {key : Bytes} (h : write.key ≠ key) : apply operator values write key = values key :=
  Function.update_of_ne (Ne.symm h) _ _

/-- Writes that are applied at once are replayed on each key by themselves. -/
theorem foldl_apply (operator : Operator) (values : Bytes → Option Bytes) (writes : List Write)
    (key : Bytes) :
    writes.foldl (apply operator) values key =
      (operator.stepwise key).replay (values key) (Write.history writes key) := by
  induction writes generalizing values with
  | nil => rfl
  | cons write writes ih =>
    rw [List.foldl_cons, ih, Write.history_cons]
    by_cases hkey : write.key = key
    · subst hkey
      rw [if_pos rfl, Reading.replay_cons, apply_self]
    · rw [if_neg hkey, apply_of_ne operator values hkey]

/-- Eager values are the stepwise meaning of the histories. -/
theorem values_eq_meaning (operator : Operator) (writes : List Write) (key : Bytes) :
    values operator writes key = (operator.stepwise key).meaning (Write.history writes key) :=
  foldl_apply operator _ writes key

/-- After every beginning of a script under one operator, with whatever chain limits, the
layered engine reads for every key the eager value of the writes so far; and an operand
that is applied at once always gives a value. -/
theorem get_run_eq_values {kind : OperatorKind} {options : Options} {script : Script}
    (hkind : options.operator = some kind) (hkeeps : script.Keeps (some kind)) :
    (∀ done : Script, done <+: script → ∃ engine, done.run options = .ok engine ∧
      ∀ key, (Layered.engine.get key).result engine =
        .ok (values kind.operator done.writes key)) ∧
    ∀ key existing operand, ∃ value,
      (kind.operator.fullMerge key existing [operand]).value = some value := by
  constructor
  · intro done hdone
    have hprefix : done.Keeps options.operator := fun command hmem =>
      hkind ▸ hkeeps command (hdone.subset hmem)
    obtain ⟨engine, hrun, hopen, hmeaning⟩ := Script.run_eq_ok hprefix
    rw [hkind] at hopen hmeaning
    refine ⟨engine, hrun, ?_⟩
    intro key
    -- what the layers hold reads as the writes do, and eager values are that reading
    have hsees := hmeaning (Resolution.respects_stepwise kind) key
    rw [hopen.result_get, hsees, values_eq_meaning]
  · intro key existing operand
    exact kind.total key existing [operand] (List.cons_ne_nil operand [])

/-- Operands that are no counters, alone and beside counters, a delete under an operand in a
batch, and a flush, an opening with another limit and a compaction on the way. -/
theorem get_run_eq_values_mixed :
    let options : Options := ⟨some .associative, 1, true⟩
    let script : Script :=
      [.merge [1] [5], .merge [1] (Counter.encode 3), .flush, .put [2] [7, 7],
        .write [.merge [2] (Counter.encode 4), .delete [1], .merge [1] (Counter.encode 2)],
        .reopen ⟨some .associative, 0, false⟩, .merge [1] (Counter.encode 5), .merge [3] [9],
        .compact]
    options.operator = some .associative ∧ script.Keeps (some .associative) ∧
      ∃ engine, script.run options = .ok engine ∧
        (Layered.engine.get [1]).result engine = .ok (some (Counter.encode 7)) ∧
        (Layered.engine.get [2]).result engine = .ok (some (Counter.encode 4)) ∧
        (Layered.engine.get [3]).result engine = .ok (some [9]) := by
  intro options script
  have hkind : options.operator = some .associative := rfl
  have hkeeps : script.Keeps (some .associative) := by decide
  obtain ⟨hall, -⟩ := get_run_eq_values hkind hkeeps
  obtain ⟨engine, hrun, hget⟩ := hall script List.prefix_rfl
  refine ⟨hkind, hkeeps, engine, hrun, ?_, ?_, ?_⟩
  · exact (hget [1]).trans (congrArg Except.ok (by decide))
  · exact (hget [2]).trans (congrArg Except.ok (by decide))
  · exact (hget [3]).trans (congrArg Except.ok (by decide))

end Eager
end LazyTally
