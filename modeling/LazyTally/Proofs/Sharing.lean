import LazyTally.Proofs.Canonical
import LazyTally.Proofs.Resolved
import LazyTally.Proofs.Tally

/-!
# Clients that share an engine

Any number of clients add to counters in one engine by merging.  Each call is one atomic step,
the steps of the clients come in any order, and between them the engine may be flushed and
compacted.  How the operands are grouped and resolved differs from one order to the next, but
what is read once all clients have finished does not: nothing is lost and nothing is added
twice.

The proof follows what the counters hold together with what the clients still owe them, which
no step changes.

## Main definitions

* `Layers.Sized` — every stored value and operand is as long as a counter.
* `Tally.plus` — a tally with a list of additions.
* `Sharing.Step`, `Sharing.Run` — one step, and steps one after the other.

## Main results

* `OperatorKind.exists_shown` — an engine with sized records shows a tally.
* `Sharing.Step.conserves`, `Sharing.Run.conserves` — a step answers well and what is held and
  owed stays the same; so it does in a run.
* `Sharing.get_run_eq_plus` — when all clients have finished, each counter has got all
  additions to it.
-/

namespace LazyTally

open Counter (encode)
open Counters (layered Shown)

/-! ### Additions to a tally -/

/-- The addends of a key in a list of additions. -/
def addends (additions : List (Bytes × UInt64)) (key : Bytes) : List UInt64 :=
  (additions.filter fun addition => addition.1 = key).map Prod.snd

/-- The tally with additions: a key that gets any has their sum on top of what it had, or of
zero, and a key that gets none has what it had. -/
def Tally.plus (tally : Tally) (additions : List (Bytes × UInt64)) : Tally := fun key =>
  if addends additions key = [] then tally key
  else some ((tally key).getD 0 + (addends additions key).sum)

theorem addends_append (additions others : List (Bytes × UInt64)) (key : Bytes) :
    addends (additions ++ others) key = addends additions key ++ addends others key := by
  rw [addends, List.filter_append, List.map_append]
  rfl

theorem addends_cons (addition : Bytes × UInt64) (others : List (Bytes × UInt64)) (key : Bytes) :
    addends (addition :: others) key =
      if addition.1 = key then addition.2 :: addends others key else addends others key := by
  rw [addends, List.filter_cons]
  split <;> simp_all [addends]

theorem sum_append_cons (before after : List UInt64) (delta : UInt64) :
    (before ++ delta :: after).sum = delta + (before ++ after).sum := by
  induction before with
  | nil => rfl
  | cons first before ih =>
    rw [List.cons_append, List.sum_cons, ih, List.cons_append, List.sum_cons]
    ac_rfl

/-- To make one addition now, out of those that are to come, changes nothing in the end. -/
theorem Tally.plus_append_cons (tally : Tally) (before after : List (Bytes × UInt64))
    (key : Bytes) (delta : UInt64) :
    Tally.plus (Function.update tally key (some ((tally key).getD 0 + delta))) (before ++ after) =
      tally.plus (before ++ (key, delta) :: after) := by
  funext k
  unfold Tally.plus
  rw [addends_append, addends_append, addends_cons]
  -- only the counts of that key see the add that was taken out of the list
  by_cases hkey : key = k
  · subst hkey
    have hne : addends before key ++ delta :: addends after key ≠ [] :=
      List.append_ne_nil_of_right_ne_nil _ (List.cons_ne_nil _ _)
    rw [if_pos rfl, if_neg hne, Function.update_self, sum_append_cons, ← UInt64.add_assoc]
    split
    · next hnil => rw [hnil, List.sum_nil, UInt64.add_zero]
    · rfl
  · rw [if_neg hkey, Function.update_of_ne (Ne.symm hkey)]

/-! ### Sized records -/

/-- What a put stores or a merge appends is as long as a counter. -/
def Record.Sized : Record → Prop
  | put value => value.length = Counter.size
  | merge operand => operand.length = Counter.size
  | delete => True

instance : DecidablePred Record.Sized := fun record => by
  cases record <;> unfold Record.Sized <;> infer_instance

/-- Every stored value and operand is as long as a counter. -/
def Layers.Sized (layers : Layers) : Prop :=
  ∀ layer ∈ layers.all, ∀ entry ∈ layer, ∀ record ∈ entry.2, record.Sized

instance (layers : Layers) : Decidable layers.Sized :=
  inferInstanceAs (Decidable (∀ layer ∈ layers.all, ∀ entry ∈ layer, ∀ record ∈ entry.2,
    record.Sized))

theorem Layers.Sized.history {layers : Layers} (h : layers.Sized) {key : Bytes} {record : Record}
    (hmem : record ∈ layers.history key) : record.Sized := by
  obtain ⟨layer, hlayer, hrecord⟩ := List.mem_flatMap.mp hmem
  unfold Layer.records at hrecord
  cases hfind : layer.find? key with
  | none => rw [hfind] at hrecord; exact nomatch hrecord
  | some records =>
    rw [hfind] at hrecord
    exact h layer hlayer _ (KeyMap.mem_of_find? hfind) record hrecord

/-- Sized records over a stored counter, or over nothing, are seen as a stored counter or as
nothing. -/
theorem OperatorKind.exists_replay (kind : OperatorKind) (key : Bytes) {records : List Record}
    (h : ∀ record ∈ records, record.Sized) (stored : Option UInt64) :
    ∃ left : Option UInt64, (kind.operator.stepwise key).replay (stored.map encode) records =
      left.map encode := by
  induction records generalizing stored with
  | nil => exact ⟨stored, rfl⟩
  | cons record records ih =>
    obtain ⟨hrecord, hrecords⟩ := List.forall_mem_cons.mp h
    rw [Reading.replay_cons]
    cases record with
    | put value =>
      -- a value of eight bytes is the stored form of a counter
      have hvalue := Counter.encode_of_decode? (Counter.decode?_of_length hrecord)
      rw [← hvalue]
      exact ih hrecords (some _)
    | merge operand =>
      -- and so is an operand
      have hoperand := Counter.encode_of_decode? (Counter.decode?_of_length hrecord)
      rw [← hoperand, Reading.next, kind.merge_stepwise_encode]
      exact ih hrecords (some _)
    | delete => exact ih hrecords none

/-- An engine with sized records shows a tally. -/
theorem OperatorKind.exists_shown (kind : OperatorKind) {engine : Layered} (h : engine.Sized) :
    ∃ tally, Shown kind.operator.stepwise tally engine := by
  have hkeys : ∀ key, ∃ stored : Option UInt64,
      (kind.operator.stepwise key).meaning (engine.history key) = stored.map encode :=
    fun key => kind.exists_replay key (fun _ => h.history) none
  choose tally htally using hkeys
  exact ⟨tally, htally⟩

namespace Sharing

/-! ### Clients and their steps -/

/-- The additions that a client still has to make, in its order. -/
abbrev Client := List (Bytes × UInt64)

/-- An engine with its clients. -/
structure Shared where
  /-- What each client still has to do. -/
  clients : List Client
  /-- The engine as it stands between two calls. -/
  engine : Layered

/-- All clients have finished. -/
def Shared.Done (shared : Shared) : Prop := ∀ client ∈ shared.clients, client = []

/-- Whose turn it may be, the command given to the engine, and what the clients are left with. -/
inductive Turn : List Client → Counters.Command → List Client → Prop
  /-- Any client that has not finished makes its next addition. -/
  | add (before after : List Client) (key : Bytes) (delta : UInt64) (rest : Client) :
      Turn (before ++ ((key, delta) :: rest) :: after) (.add .merge key delta)
        (before ++ rest :: after)
  /-- The memtable is flushed. -/
  | flush (clients : List Client) : Turn clients .flush clients
  /-- The runs are compacted. -/
  | compact (clients : List Client) : Turn clients .compact clients

/-- One call on the engine, with its answer. -/
inductive Step (default : UInt64) : Shared → Except Failure Unit → Shared → Prop
  | turn {clients left : List Client} {command : Counters.Command} (engine : Layered)
      (h : Turn clients command left) :
      Step default ⟨clients, engine⟩ ((command.call default).result engine)
        ⟨left, (command.call default).after engine⟩

/-- Calls one after the other, with their answers. -/
inductive Run (default : UInt64) : Shared → List (Except Failure Unit) → Shared → Prop
  | nil (shared : Shared) : Run default shared [] shared
  | cons {shared middle last : Shared} {answer : Except Failure Unit}
      {answers : List (Except Failure Unit)} (h : Step default shared answer middle)
      (hrest : Run default middle answers last) : Run default shared (answer :: answers) last

/-! ### What no step changes -/

/-- The engine shows a tally that, with all that the clients still have to add, is the given
one. -/
structure Holds (kind : OperatorKind) (total : Tally) (shared : Shared) : Prop where
  /-- The engine is open with the operator. -/
  openUnder : shared.engine.OpenUnder (some kind)
  /-- What is held and what is owed make up the total. -/
  shown : ∃ tally, Shown kind.operator.stepwise tally shared.engine ∧
    tally.plus shared.clients.flatten = total

section

variable {kind : OperatorKind} {total : Tally} {shared last : Shared}

theorem Turn.keeps {clients left : List Client} {command : Counters.Command}
    (h : Turn clients command left) (kind : OperatorKind) : command.Keeps (some kind) := by
  cases h with
  | add before after key delta rest => exact nofun
  | flush => trivial
  | compact => trivial

/-- A turn takes from what is owed what it adds to the tally. -/
theorem Turn.plus_next {clients left : List Client} {command : Counters.Command}
    (h : Turn clients command left) (default : UInt64) (tally : Tally) :
    (command.next default tally).plus left.flatten = tally.plus clients.flatten := by
  cases h with
  | add before after key delta rest =>
    rw [List.flatten_append, List.flatten_cons, List.flatten_append, List.flatten_cons]
    exact tally.plus_append_cons before.flatten (rest ++ after.flatten) key delta
  | flush => rfl
  | compact => rfl

/-- A step answers well, and what is held and owed stays the same. -/
theorem Step.conserves {default : UInt64} {answer : Except Failure Unit}
    (h : Step default shared answer last) (hholds : Holds kind total shared) :
    answer = .ok () ∧ Holds kind total last := by
  cases h with
  | turn engine hturn =>
    obtain ⟨hopen, tally, hshown, htotal⟩ := hholds
    obtain ⟨after, hgives, hafter, hnext⟩ :=
      hshown.gives_call (Counters.shows_stepwise kind) hopen default (hturn.keeps kind)
    obtain ⟨hresult, rfl⟩ := hgives
    exact ⟨hresult, hafter, _, hnext, (hturn.plus_next default tally).trans htotal⟩

theorem Run.conserves {default : UInt64} {answers : List (Except Failure Unit)}
    (h : Run default shared answers last) (hholds : Holds kind total shared) :
    (∀ answer ∈ answers, answer = .ok ()) ∧ Holds kind total last := by
  induction h with
  | nil shared => exact ⟨nofun, hholds⟩
  | cons hstep hrest ih =>
    obtain ⟨hanswer, hmiddle⟩ := hstep.conserves hholds
    obtain ⟨hanswers, hlast⟩ := ih hmiddle
    exact ⟨List.forall_mem_cons.mpr ⟨hanswer, hanswers⟩, hlast⟩

/-- Once all clients have finished nothing is owed. -/
theorem Holds.shown_of_done (h : Holds kind total shared) (hdone : shared.Done) :
    Shown kind.operator.stepwise total shared.engine := by
  obtain ⟨tally, hshown, rfl⟩ := h.shown
  have hnil : shared.clients.flatten = [] := List.flatten_eq_nil_iff.mpr hdone
  rw [hnil]
  exact hshown

end

/-- From every reachable engine with an operator and sized records, in whatever order the calls
of the clients come and wherever the engine is flushed and compacted, every call succeeds; and
when all clients have finished, each counter reads as before with all additions to it, for
every client that made them.  So all orders end with the same counters. -/
theorem get_run_eq_plus (default : UInt64) {engine : Layered} (hreachable : engine.Reachable)
    (hsome : engine.operator.isSome) (hsized : engine.Sized) (clients : List Client) :
    ∃ tally : Tally,
      (∀ key, (Layered.engine.get key).result engine = .ok ((tally key).map encode)) ∧
      (∀ answers last, Run default ⟨clients, engine⟩ answers last →
        (∀ answer ∈ answers, answer = .ok ()) ∧
        (last.Done → ∀ key,
          (Layered.engine.get key).result last.engine =
            .ok ((tally.plus clients.flatten key).map encode) ∧
          ∀ strategy, ((layered default strategy).get key).result last.engine =
            .ok ((tally.plus clients.flatten key).getD default))) ∧
      ∀ answers answers' last last', Run default ⟨clients, engine⟩ answers last →
        Run default ⟨clients, engine⟩ answers' last' → last.Done → last'.Done →
        ∀ key, (Layered.engine.get key).result last.engine =
          (Layered.engine.get key).result last'.engine := by
  obtain ⟨kind, hopen⟩ := hreachable.exists_kind hsome
  obtain ⟨tally, hshown⟩ := kind.exists_shown hsized
  have hshows := Counters.shows_stepwise kind
  -- at first nothing was added, so the tally of the store and of what is to come is the wanted one
  have hstart : Holds kind (tally.plus clients.flatten) ⟨clients, engine⟩ :=
    ⟨hopen, tally, hshown, rfl⟩
  have hget : ∀ {answers last}, Run default ⟨clients, engine⟩ answers last → last.Done → ∀ key,
      (Layered.engine.get key).result last.engine =
        .ok ((tally.plus clients.flatten key).map encode) := by
    intro answers last hrun hdone key
    obtain ⟨-, hlast⟩ := hrun.conserves hstart
    exact hshows.get hlast.openUnder (hlast.shown_of_done hdone key)
  -- no run needs to finish for its answers, but what is stored is known only at its end
  refine ⟨tally, fun key => hshows.get hopen (hshown key), ?_, ?_⟩
  · intro answers last hrun
    obtain ⟨hanswers, hlast⟩ := hrun.conserves hstart
    refine ⟨hanswers, fun hdone key => ⟨hget hrun hdone key, fun strategy => ?_⟩⟩
    exact ((hlast.shown_of_done hdone).gives_get hshows hlast.openUnder default strategy key).1
  · intro answers answers' last last' hrun hrun' hdone hdone' key
    rw [hget hrun hdone key, hget hrun' hdone' key]

/-- Two clients meet on one key, between a flush and a compaction and with a chain limit, over a
put that was there before. -/
theorem get_run_eq_plus_two :
    let options : Options := ⟨some .associative, 1, true⟩
    let engine := (Command.put [1] (encode 10)).call.after (Layered.opened [] none options)
    let clients : List Client := [[([1], 5), ([2], 1)], [([1], 7)]]
    engine.Reachable ∧ engine.operator.isSome ∧ engine.Sized ∧
      ∃ answers last, Run 0 ⟨clients, engine⟩ answers last ∧ last.Done ∧
        (Layered.engine.get [1]).result last.engine = .ok (some (encode 22)) ∧
        (Layered.engine.get [2]).result last.engine = .ok (some (encode 1)) ∧
        (Layered.engine.get [3]).result last.engine = .ok none := by
  intro options engine clients
  have hreachable : engine.Reachable :=
    .called (.opened options (Layered.result_ofStore (.inl rfl))) _
  have hsome : engine.operator.isSome := by decide
  have hsized : engine.Sized := by decide
  have hrun : ∃ answers last, Run 0 ⟨clients, engine⟩ answers last ∧ last.Done := by
    -- the clients take turns, with a flush and a compaction between them
    refine ⟨_, _, .cons (.turn _ (.add [[([1], 5), ([2], 1)]] [] [1] 7 [])) <|
      .cons (.turn _ (.flush _)) <|
      .cons (.turn _ (.add [] [[]] [1] 5 [([2], 1)])) <|
      .cons (.turn _ (.compact _)) <|
      .cons (.turn _ (.add [] [[]] [2] 1 [])) <| .nil _, ?_⟩
    simp [Shared.Done]
  obtain ⟨answers, last, hrun, hdone⟩ := hrun
  obtain ⟨tally, hbefore, hall, -⟩ := get_run_eq_plus 0 hreachable hsome hsized clients
  obtain ⟨-, hafter⟩ := hall answers last hrun
  have hread : ∀ key stored, (Layered.engine.get key).result engine = .ok (stored.map encode) →
      tally key = stored := fun key stored h =>
    Option.map_injective Counter.encode_injective (Except.ok.inj ((hbefore key).symm.trans h))
  have hone : tally [1] = some 10 := hread [1] (some 10) rfl
  have htwo : tally [2] = none := hread [2] none rfl
  have hthree : tally [3] = none := hread [3] none rfl
  refine ⟨hreachable, hsome, hsized, answers, last, hrun, hdone, ?_, ?_, ?_⟩
  · rw [(hafter hdone [1]).1, Tally.plus, hone]
    rfl
  · rw [(hafter hdone [2]).1, Tally.plus, htwo]
    rfl
  · rw [(hafter hdone [3]).1, Tally.plus, hthree]
    rfl

end Sharing
end LazyTally
