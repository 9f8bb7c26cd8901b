import LazyTally.Proofs.Containment
import LazyTally.Proofs.Dumping
import LazyTally.Proofs.Effects
import LazyTally.Proofs.Facade
import LazyTally.Proofs.Provenance

/-!
# Which calls fail

Whatever happened to a store, its engine takes every write, flush and compaction.  Only a read can
fail, and only if operands of its key wait while no operator is configured.  An operator that does
not answer would be a failure too, but the operators on counters answer whenever they are asked
with an operand, and without one they are not asked.

## Main definitions

* `Layered.unresolved` — the failure of a read that finds operands without an operator.

## Main results

* `Layered.OpenUnder.result_get_eq_error_iff` — which reads fail.
* `Layered.OpenUnder.result_operation_ne_mergeFailed` — no call fails for lack of an answer.
* `Counters.result_get` — what a counter reads as is told by what the engine gives.
* `Layered.Reachable.fails_iff` — exactly which calls on an engine and on its counters fail.
-/

namespace LazyTally
namespace Layered

/-- The failure of a read that finds operands of a key and has no operator to resolve them. -/
def unresolved (key : Bytes) : Failure :=
  .engineRead ("merge operands for key " ++ key.text ++ " but no merge operator configured")

variable {engine : Layered} {operator : Option OperatorKind}

/-- A read fails if operands wait and no operator is configured, and only then. -/
theorem OpenUnder.result_get_eq_error_iff (h : engine.OpenUnder operator) {key : Bytes}
    {failure : Failure} :
    (Layered.engine.get key).result engine = .error failure ↔
      engine.operator = none ∧ 0 < engine.pendingOperands key ∧ failure = unresolved key := by
  cases operator with
  | some kind =>
    have hsome : engine.operator ≠ none := by
      rw [h.operator_eq]
      exact Option.some_ne_none _
    rw [h.result_get key]
    exact ⟨nofun, fun hfails => absurd hfails.1 hsome⟩
  | none =>
    obtain ⟨hcount, hresult⟩ := h.result_get_waiting rfl
    rw [hresult, ← hcount]
    by_cases hpending : 0 < engine.pendingOperands key
    · rw [if_pos hpending, Except.error.injEq]
      exact ⟨fun heq => ⟨h.operator_eq, hpending, heq.symm⟩, fun hfails => hfails.2.2.symm⟩
    · rw [if_neg hpending]
      exact ⟨nofun, fun hfails => absurd hfails.2.1 hpending⟩

/-- A dump fails only as one of its reads does. -/
theorem OpenUnder.exists_get_eq_error (h : engine.OpenUnder operator) {failure : Failure}
    (hfails : Layered.engine.dump.result engine = .error failure) :
    ∃ key, (Layered.engine.get key).result engine = .error failure := by
  rcases reads_or_fails h.ascending with hall | ⟨key, first, hfirst, hbefore⟩
  · choose values hvalues using hall
    exact nomatch hfails.symm.trans (result_dump_of_ok hvalues)
  · have hdump := result_dump_of_error h.ascending hfirst hbefore
    obtain rfl := Except.error.inj (hfails.symm.trans hdump)
    exact ⟨key, hfirst⟩

/-- A write, a flush and a compaction succeed. -/
theorem OpenUnder.result_call (h : engine.OpenUnder operator) (command : Command)
    (hkeeps : command.Keeps operator) : command.call.result engine = .ok () := by
  obtain ⟨after, hgives, -⟩ := Command.runs_call hkeeps h
  exact hgives.1

/-- No call on an engine fails for lack of an answer of its operator. -/
theorem OpenUnder.result_operation_ne_mergeFailed (h : engine.OpenUnder operator)
    (operation : Engine.Operation) (key : Bytes) :
    (operation.call Layered.engine).result engine ≠ .error (.mergeFailed key) := by
  -- resolution while writing always succeeds
  have hchanges : ∀ command : Command, command.Keeps operator →
      command.call.result engine ≠ .error (.mergeFailed key) := by
    intro command hkeeps hfails
    exact nomatch hfails.symm.trans (h.result_call command hkeeps)
  -- and a read fails for want of an operator only
  have hreads : ∀ k, (Layered.engine.get k).result engine ≠ .error (.mergeFailed key) := by
    intro k hfails
    obtain ⟨-, -, hother⟩ := h.result_get_eq_error_iff.mp hfails
    exact nomatch hother
  cases operation with
  | put k value => exact hchanges (.put k value) trivial
  | delete k => exact hchanges (.delete k) trivial
  | merge k operand => exact hchanges (.merge k operand) trivial
  | write batch => exact hchanges (.write batch) trivial
  | flush => exact hchanges .flush trivial
  | compact => exact hchanges .compact trivial
  | get k =>
    rw [Engine.Operation.call, ne_eq, Call.result_bind_pure_eq_error_iff]
    exact hreads k
  | dump =>
    rw [Engine.Operation.call, ne_eq, Call.result_bind_pure_eq_error_iff]
    -- a dump fails with the failure of one of its reads
    intro hfails
    obtain ⟨k, hget⟩ := h.exists_get_eq_error hfails
    exact hreads k hget

end Layered

/-! ### Counters -/

namespace Counters

/-- What a counter reads as is told by what the engine gives for it. -/
theorem result_get (default : UInt64) (strategy : Strategy) (key : Bytes) (engine : Layered) :
    ((layered default strategy).get key).result engine =
      match (Layered.engine.get key).result engine with
      | .error failure => .error failure
      | .ok none => .ok default
      | .ok (some bytes) =>
          if bytes.length = Counter.size then .ok (Counter.count bytes)
          else .error (.corruption key bytes.length) :=
  ((layered default strategy).get_gives key engine).1

variable {default : UInt64} {strategy : Strategy} {key : Bytes} {engine : Layered}

/-- A counter fails as its engine does, or if what the engine gives is no counter. -/
theorem result_get_eq_error_iff {failure : Failure} :
    ((layered default strategy).get key).result engine = .error failure ↔
      (Layered.engine.get key).result engine = .error failure ∨
        ∃ bytes, (Layered.engine.get key).result engine = .ok (some bytes) ∧
          bytes.length ≠ Counter.size ∧ failure = .corruption key bytes.length := by
  rw [result_get]
  rcases (Layered.engine.get key).result engine with other | _ | bytes
  · simp
  · simp
  · by_cases hsize : bytes.length = Counter.size
    · simp [hsize]
    · simp [hsize, eq_comm (a := failure)]

/-- A counter reads as the default if the engine has nothing for it, and else as the counter that
the engine has. -/
theorem result_get_eq_ok_iff {value : UInt64} :
    ((layered default strategy).get key).result engine = .ok value ↔
      (Layered.engine.get key).result engine = .ok none ∧ value = default ∨
        (Layered.engine.get key).result engine = .ok (some (Counter.encode value)) := by
  rw [result_get]
  -- the read fails, the counter is absent, or its bytes are read
  rcases (Layered.engine.get key).result engine with other | _ | bytes
  · simp
  · simp [eq_comm]
  · dsimp only
    by_cases hsize : bytes.length = Counter.size
    · have hencode := Counter.encode_count_eq_iff.mpr hsize
      rw [if_pos hsize]
      constructor
      · intro hvalue
        obtain rfl := Except.ok.inj hvalue
        exact .inr (by rw [hencode])
      · rintro (⟨hnone, -⟩ | hsome)
        · exact nomatch hnone
        · obtain rfl := Option.some.inj (Except.ok.inj hsome)
          rw [Counter.count_encode]
    · rw [if_neg hsize]
      refine ⟨nofun, ?_⟩
      rintro (⟨hnone, -⟩ | hsome)
      · exact nomatch hnone
      · -- an encoded counter has the size of a counter
        obtain rfl := Option.some.inj (Except.ok.inj hsome)
        exact absurd (Counter.length_encode value) hsize

end Counters

namespace Layered

/-- An engine takes every write, flush and compaction.  A read fails if and only if operands of its
key wait and no operator is configured, and no call fails for lack of an answer.  So a counter
cannot be read in that case, nor if the engine gives bytes that are no counter, and it reads as a
counter or as the default in any other case. -/
theorem Reachable.fails_iff {engine : Layered} (h : engine.Reachable) :
    (∀ key value, (Layered.engine.put key value).result engine = .ok ()) ∧
      (∀ key, (Layered.engine.delete key).result engine = .ok ()) ∧
      (∀ key operand, (Layered.engine.merge key operand).result engine = .ok ()) ∧
      (∀ batch, (Layered.engine.write batch).result engine = .ok ()) ∧
      Layered.engine.flush.result engine = .ok () ∧
      Layered.engine.compact.result engine = .ok () ∧
      (∀ key failure, (Layered.engine.get key).result engine = .error failure ↔
        engine.operator = none ∧ 0 < engine.pendingOperands key ∧ failure = unresolved key) ∧
      (∀ operation key,
        (Engine.Operation.call Layered.engine operation).result engine ≠
          .error (.mergeFailed key)) ∧
      ∀ default strategy key,
        (∀ failure, ((Counters.layered default strategy).get key).result engine = .error failure ↔
          engine.operator = none ∧ 0 < engine.pendingOperands key ∧ failure = unresolved key ∨
            ∃ bytes, (Layered.engine.get key).result engine = .ok (some bytes) ∧
              bytes.length ≠ Counter.size ∧ failure = .corruption key bytes.length) ∧
        ∀ value, ((Counters.layered default strategy).get key).result engine = .ok value ↔
          (Layered.engine.get key).result engine = .ok none ∧ value = default ∨
            (Layered.engine.get key).result engine = .ok (some (Counter.encode value)) := by
  obtain ⟨operator, hopen⟩ := h.openUnder
  refine ⟨?_, ?_, ?_, ?_, ?_, ?_, ?_, ?_, ?_⟩
  · exact fun key value => hopen.result_call (.put key value) trivial
  · exact fun key => hopen.result_call (.delete key) trivial
  · exact fun key operand => hopen.result_call (.merge key operand) trivial
  · exact fun batch => hopen.result_call (.write batch) trivial
  · exact hopen.result_call .flush trivial
  · exact hopen.result_call .compact trivial
  · exact fun key failure => hopen.result_get_eq_error_iff
  · exact hopen.result_operation_ne_mergeFailed
  · intro default strategy key
    refine ⟨?_, fun value => Counters.result_get_eq_ok_iff⟩
    intro failure
    rw [Counters.result_get_eq_error_iff, hopen.result_get_eq_error_iff]

/-- A store without an operator, over two openings: operands wait on one key, one key holds a
single byte, and one was never written. -/
theorem Reachable.fails_iff_waiting :
    let script : Script :=
      [.write [.merge [1] [5], .put [2] [7]], .flush, .reopen ⟨none, 0, true⟩, .merge [1] [6]]
    let engine := Script.after script (Layered.opened [] none ⟨none, 3, true⟩)
    engine.Reachable ∧
      (Layered.engine.get [1]).result engine = .error (unresolved [1]) ∧
      ((Counters.layered 9 .merge).get [1]).result engine = .error (unresolved [1]) ∧
      ((Counters.layered 9 .merge).get [2]).result engine = .error (.corruption [2] 1) ∧
      ((Counters.layered 9 .merge).get [3]).result engine = .ok 9 ∧
      Layered.engine.compact.result engine = .ok () := by
  intro script engine
  have hempty : Reachable (Layered.opened [] none ⟨none, 3, true⟩) :=
    .opened ⟨none, 3, true⟩ (result_ofStore (.inl rfl))
  have hreachable := hempty.after script
  obtain ⟨-, -, -, -, -, hcompact, hget, -, hcounters⟩ := Reachable.fails_iff hreachable
  have hwaits : 0 < engine.pendingOperands [1] := by decide
  have hread := fun key => hcounters 9 .merge key
  refine ⟨hreachable, ?_, ?_, ?_, ?_, hcompact⟩
  · exact (hget [1] _).mpr ⟨rfl, hwaits, rfl⟩
  · exact ((hread [1]).1 _).mpr (.inl ⟨rfl, hwaits, rfl⟩)
  · exact ((hread [2]).1 _).mpr (.inr ⟨[7], rfl, by decide, rfl⟩)
  · exact ((hread [3]).2 _).mpr (.inl ⟨rfl, rfl⟩)

end Layered
end LazyTally
