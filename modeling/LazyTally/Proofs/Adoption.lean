import Mathlib.Data.List.Induction
import LazyTally.Proofs.Script

/-!
# Adopting an operator

A store that is written without an operator keeps every operand.  It reads what has no
operands waiting, refuses the rest, and can be opened with an operator at any later time:
from then on it reads as if it had been opened with that operator from the beginning.

## Main definitions

* `Write.waiting` — how many operands were merged since the last put or delete of a key.
* `Write.lastValue` — what that put or delete left.

## Main results

* `Write.meaning_waiting_history` — the plain reading of a history sees both.
* `Adoption.get_adopted_eq` — what is read before and after an operator is adopted.
-/

namespace LazyTally

namespace Record

/-- The record is an operand. -/
def isOperand : Record → Bool
  | merge _ => true
  | put _ | delete => false

/-- The value that the record gives by itself. -/
def value? : Record → Option Bytes
  | put value => some value
  | merge _ | delete => none

end Record

namespace Write

/-- The number of operands merged into a key since its last put or delete. -/
def waiting (writes : List Write) (key : Bytes) : Nat :=
  ((history writes key).reverse.takeWhile Record.isOperand).length

/-- The value that the last put or delete left on a key. -/
def lastValue (writes : List Write) (key : Bytes) : Option Bytes :=
  ((history writes key).reverse.find? fun record => !record.isOperand).bind Record.value?

/-- The plain reading sees the last put or delete and the number of operands after it. -/
theorem meaning_waiting_reverse (records : List Record) :
    Reading.waiting.meaning records =
      ((records.reverse.find? fun record => !record.isOperand).bind Record.value?,
        (records.reverse.takeWhile Record.isOperand).length) := by
  induction records using List.reverseRecOn with
  | nil => rfl
  | append_singleton records record ih =>
    rw [Reading.meaning] at ih
    rw [Reading.meaning, Reading.replay_append, ih, List.reverse_concat]
    cases record <;> rfl

theorem meaning_waiting_history (writes : List Write) (key : Bytes) :
    Reading.waiting.meaning (history writes key) = (lastValue writes key, waiting writes key) :=
  meaning_waiting_reverse (history writes key)

end Write

namespace Adoption

/-- An engine that opens a store written without an operator reads, after any continuation,
what the operator makes of all writes one operand at a time. -/
theorem get_continued {kind : OperatorKind} {adopted : Layered} {writes : List Write}
    (hopen : adopted.OpenUnder (some kind))
    (hmeaning : ∀ key, (kind.operator.stepwise key).meaning (adopted.history key) =
      (kind.operator.stepwise key).meaning (Write.history writes key))
    {continuation : Script} (hkeeps : continuation.Keeps (some kind)) :
    ∃ late, continuation.call.Gives adopted () late ∧ ∀ key,
      (Layered.engine.get key).result late = .ok ((kind.operator.stepwise key).meaning
        (Write.history (writes ++ continuation.writes) key)) := by
  obtain ⟨late, hgives, hlate, htakes⟩ := Script.runs_call hkeeps hopen
  refine ⟨late, hgives, ?_⟩
  intro key
  have hseen := htakes (Resolution.respects_stepwise kind) key
  rw [hmeaning key] at hseen
  rw [hlate.result_get, hseen, Write.history_append, Reading.meaning, Reading.meaning,
    Reading.replay_append]

/-- A script without an operator succeeds; what waits on a key is what was merged since its
last put or delete, and a key can be read if nothing waits.  Its store then opens with any
operator, and after every continuation each key reads as on any engine that took the same
writes under that operator from the beginning. -/
theorem get_adopted_eq {options : Options} {script : Script} (hnone : options.operator = none)
    (hkeeps : script.Keeps none) :
    ∃ engine, script.run options = .ok engine ∧
      (∀ key, engine.pendingOperands key = Write.waiting script.writes key ∧
        (Layered.engine.get key).result engine =
          if 0 < Write.waiting script.writes key then
            .error (.engineRead ("merge operands for key " ++ key.text
              ++ " but no merge operator configured"))
          else .ok (Write.lastValue script.writes key)) ∧
      ∀ (kind : OperatorKind) (adopting : Options), adopting.operator = some kind →
        ∃ adopted, (Layered.ofStore engine.close adopting).result = .ok adopted ∧
          ∀ continuation : Script, continuation.Keeps (some kind) →
            ∃ late, continuation.call.Gives adopted () late ∧
              ∀ (other : Script) (direct : Options), direct.operator = some kind →
                other.Keeps (some kind) → other.writes = script.writes ++ continuation.writes →
                ∃ early, other.run direct = .ok early ∧ ∀ key, ∃ value,
                  (Layered.engine.get key).result late = .ok value ∧
                    (Layered.engine.get key).result early = .ok value := by
  obtain ⟨engine, hrun, hopen, hmeaning⟩ := Script.run_eq_ok (hnone ▸ hkeeps)
  rw [hnone] at hopen hmeaning
  refine ⟨engine, hrun, ?_, ?_⟩
  · intro key
    refine hopen.result_get_waiting ?_
    have hseen := hmeaning (Resolution.respects_none fun _ => Reading.waiting) key
    exact hseen.trans (Write.meaning_waiting_history script.writes key)
  · intro kind adopting hkind
    -- the store has no mark yet, so it takes that of the operator
    obtain ⟨-, hadopted, hreopen⟩ := hopen.runs_reopen adopting (.inl rfl)
    rw [hkind] at hadopted hreopen
    refine ⟨_, Layered.result_ofStore (.inl hopen.identity_eq), ?_⟩
    intro continuation hcont
    -- opening changes no history, and no operator has merged anything so far
    have hwritten : ∀ key,
        (kind.operator.stepwise key).meaning
            ((Layered.opened engine.close.runs engine.identity adopting).history key) =
          (kind.operator.stepwise key).meaning (Write.history script.writes key) := by
      intro key
      have hseen := hreopen (Resolution.respects_stepwise kind) key
      exact hseen.trans (hmeaning (Resolution.respects_none kind.operator.stepwise) key)
    obtain ⟨late, hgives, hlate⟩ := get_continued hadopted hwritten hcont
    refine ⟨late, hgives, ?_⟩
    intro other direct hdirect hother hwrites
    obtain ⟨early, hearly, hunder, hsees⟩ := Script.run_eq_ok (hdirect ▸ hother)
    rw [hdirect] at hunder hsees
    refine ⟨early, hearly, ?_⟩
    intro key
    refine ⟨_, hlate key, ?_⟩
    rw [hunder.result_get, hsees (Resolution.respects_stepwise kind) key, hwrites]

/-- Operands over a tombstone at the bottom and in two more layers, one of them no counter,
wait for an operator that comes late and with a limit. -/
theorem get_adopted_eq_tombstone :
    let script : Script :=
      [.put [1] [5], .delete [1], .merge [1] (Counter.encode 2), .compact,
        .merge [1] (Counter.encode 3), .flush, .put [2] [9], .reopen ⟨none, 4, true⟩,
        .merge [1] [7]]
    let continuation : Script := [.merge [1] (Counter.encode 4), .merge [2] [8], .compact]
    let other : Script := [.write (script.writes ++ continuation.writes)]
    script.Keeps none ∧ continuation.Keeps (some .fullPartial) ∧
      ∃ engine, script.run ⟨none, 0, true⟩ = .ok engine ∧
        engine.pendingOperands [1] = 3 ∧
        (Layered.engine.get [1]).result engine = .error (.engineRead
          "merge operands for key [1] but no merge operator configured") ∧
        (Layered.engine.get [2]).result engine = .ok (some [9]) ∧
        ∃ adopted,
          (Layered.ofStore engine.close ⟨some .fullPartial, 1, true⟩).result = .ok adopted ∧
          ∃ late early value, continuation.call.Gives adopted () late ∧
            other.run ⟨some .fullPartial, 0, true⟩ = .ok early ∧
              (Layered.engine.get [1]).result late = .ok value ∧
                (Layered.engine.get [1]).result early = .ok value := by
  intro script continuation other
  have hkeeps : script.Keeps none := by decide
  have hcont : continuation.Keeps (some .fullPartial) := by decide
  have hother : other.Keeps (some .fullPartial) := by decide
  have hnone : Options.operator ⟨none, 0, true⟩ = none := rfl
  -- one theorem for the first life and what it adopts, then for each life that goes on from there
  obtain ⟨engine, hrun, hwaits, hadopts⟩ := get_adopted_eq hnone hkeeps
  obtain ⟨adopted, hadopted, hnext⟩ := hadopts .fullPartial ⟨some .fullPartial, 1, true⟩ rfl
  obtain ⟨late, hlate, hsame⟩ := hnext continuation hcont
  obtain ⟨early, hearly, hget⟩ :=
    hsame other ⟨some .fullPartial, 0, true⟩ rfl hother (List.append_nil _)
  obtain ⟨value, hvalue, hvalue'⟩ := hget [1]
  refine ⟨hkeeps, hcont, engine, hrun, ?_, ?_, ?_, adopted, hadopted, late, early, value, hlate,
    hearly, hvalue, hvalue'⟩
  · exact (hwaits [1]).1.trans (by decide)
  · exact (hwaits [1]).2.trans (by decide)
  · exact (hwaits [2]).2.trans (congrArg Except.ok (by decide))

end Adoption
end LazyTally
