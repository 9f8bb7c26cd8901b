import LazyTally.Proofs.Resolved
import LazyTally.Proofs.Tally

/-!
# Malformed operands

Nothing keeps anyone from merging bytes that are no counter into the key of a counter.  Among
other operands, or over a value, such an operand counts as zero and everything else is still
summed.  It shows only where it stands alone over nothing and the operator is of the kind that
takes a first operand as it is: then the counter cannot be read until another operand, a value
or a removal comes after it.

## Main definitions

* `Account` — what happened to a counter since it was last set or removed.
* `Account.read` — what the counter reads as.
* `Containment.Command` — what can happen to an engine: calls of the counters, and operands of
  any length.
* `Containment.Command.next`, `Containment.Command.answer` — what a command does to the
  accounts, and what it answers.

## Main results

* `Containment.Holds.answers` — a command answers as the accounts say, and they go on holding.
* `Containment.get_run_eq_read` — after every beginning of a script each counter reads as its
  account says.
-/

namespace LazyTally

open Counter (encode)
open Counters (layered)

/-- What happened to a counter since it was last set or removed. -/
structure Account where
  /-- What it was set to, if it was. -/
  stored : Option UInt64
  /-- The operands merged into it since, oldest first. -/
  operands : List Bytes

namespace Account

/-- The account of a counter that was removed, or never set. -/
def fresh : Account := ⟨none, []⟩

/-- The account with one more operand. -/
def merge (account : Account) (operand : Bytes) : Account :=
  { account with operands := account.operands ++ [operand] }

/-- The value of the counter: what is stored, with all operands added, and malformed operands
counting as zero. -/
def value (default : UInt64) (account : Account) : UInt64 :=
  if account.operands = [] then account.stored.getD default
  else account.stored.getD 0 + Counter.total account.operands

/-- The size of a malformed operand that is all there is, under an operator that takes it as
it is. -/
def exposed? : OperatorKind → Account → Option Nat
  | .associative, ⟨none, [operand]⟩ =>
      if operand.length = Counter.size then none else some operand.length
  | _, _ => none

/-- What the counter reads as. -/
def read (kind : OperatorKind) (default : UInt64) (key : Bytes) (account : Account) :
    Except Failure UInt64 :=
  match account.exposed? kind with
  | some size => .error (.corruption key size)
  | none => .ok (account.value default)

/-- What the engine gives for the counter. -/
def bytes (kind : OperatorKind) (account : Account) : Option Bytes :=
  kind.resolved (account.stored.map encode) account.operands

theorem bytes_merge (kind : OperatorKind) (key : Bytes) (account : Account) (operand : Bytes) :
    (account.merge operand).bytes kind =
      (kind.operator.stepwise key).merge (account.bytes kind) operand := by
  rw [bytes, bytes, ← kind.foldl_stepwise key, ← kind.foldl_stepwise key]
  exact List.foldl_append

/-- An exposed operand is what the engine gives. -/
theorem bytes_of_exposed {kind : OperatorKind} {account : Account} {size : Nat}
    (h : account.exposed? kind = some size) :
    ∃ operand, account.bytes kind = some operand ∧ operand.length = size ∧
      size ≠ Counter.size := by
  obtain ⟨stored, operands⟩ := account
  cases kind with
  | fullPartial => exact nomatch h
  | associative =>
    -- only a single operand over nothing is handed out unread
    rcases stored with _ | value <;> rcases operands with _ | ⟨first, _ | ⟨second, rest⟩⟩
    case none.cons.nil =>
      have h : (if first.length = Counter.size then none else some first.length) = some size := h
      split at h
      · exact nomatch h
      · next hsize =>
        obtain rfl := Option.some.inj h
        exact ⟨first, rfl, rfl, hsize⟩
    all_goals exact nomatch h

theorem total_stored (stored : Option UInt64) (operands : List Bytes) :
    Counter.total ((stored.map encode).toList ++ operands) =
      stored.getD 0 + Counter.total operands := by
  cases stored with
  | none => exact (UInt64.zero_add _).symm
  | some value =>
    rw [Option.map_some, Option.toList_some, List.singleton_append, Counter.total_cons,
      Counter.count_encode]
    rfl

theorem value_cons (default : UInt64) (stored : Option UInt64) (first : Bytes)
    (rest : List Bytes) :
    value default ⟨stored, first :: rest⟩ =
      Counter.total ((stored.map encode).toList ++ first :: rest) := by
  rw [value, if_neg (List.cons_ne_nil first rest), total_stored]

/-- If no operand is exposed, the engine gives the stored value, or nothing of an account in
which nothing is. -/
theorem bytes_of_not_exposed {kind : OperatorKind} {account : Account}
    (h : account.exposed? kind = none) (default : UInt64) :
    account.bytes kind = some (encode (account.value default)) ∨
      account.bytes kind = none ∧ account.value default = default := by
  obtain ⟨stored, operands⟩ := account
  cases operands with
  | nil =>
    cases stored with
    | none => exact .inr ⟨rfl, rfl⟩
    | some value => exact .inl rfl
  | cons first rest =>
    left
    rw [value_cons]
    rcases stored with _ | value
    · cases rest with
      | cons second rest => rfl
      | nil =>
        -- a single operand is taken as it is only if that is a stored counter
        rw [Option.map_none, Option.toList_none, List.nil_append, Counter.total_singleton]
        cases kind with
        | fullPartial => rfl
        | associative =>
          have h : (if first.length = Counter.size then none else some first.length) = none := h
          split at h
          · next hsize => exact congrArg some (Counter.encode_count_eq_iff.mpr hsize).symm
          · exact nomatch h
    · exact kind.resolved_some (encode value) first rest

end Account

namespace Containment

/-! ### Commands -/

/-- What can happen to an engine with counters in it. -/
inductive Command where
  /-- A call of the counters, or of whoever looks after the engine. -/
  | counters (command : Counters.Command)
  /-- An operand of any length is merged. -/
  | merge (key operand : Bytes)
  deriving DecidableEq, Repr

namespace Command

/-- What a command does to the engine. -/
def call (default : UInt64) : Command → Call Counters.Event Layered Unit
  | counters command => command.call default
  | merge key operand => (Layered.engine.merge key operand).relabel .engine

/-- What reading and writing does to the accounts: nothing, where the counter cannot be read. -/
def rewritten (kind : OperatorKind) (default : UInt64) (accounts : Bytes → Account) (key : Bytes)
    (delta : UInt64) : Bytes → Account :=
  match (accounts key).read kind default key with
  | .ok value => Function.update accounts key ⟨some (value + delta), []⟩
  | .error _ => accounts

/-- What a command does to the accounts. -/
def next (kind : OperatorKind) (default : UInt64) (accounts : Bytes → Account) :
    Command → Bytes → Account
  | counters (.set _ key value) => Function.update accounts key ⟨some value, []⟩
  | counters (.remove _ key) => Function.update accounts key .fresh
  | counters (.add .merge key delta) =>
      Function.update accounts key ((accounts key).merge (encode delta))
  | counters (.add .readModifyWrite key delta) => rewritten kind default accounts key delta
  | counters .flush | counters .compact | counters (.reopen _) => accounts
  | merge key operand => Function.update accounts key ((accounts key).merge operand)

/-- What a command answers: only to read and write can fail, where reading does. -/
def answer (kind : OperatorKind) (default : UInt64) (accounts : Bytes → Account) :
    Command → Except Failure Unit
  | counters (.add .readModifyWrite key _) =>
      ((accounts key).read kind default key).map fun _ => ()
  | _ => .ok ()

/-- The store is not opened with another operator. -/
def Keeps (kind : OperatorKind) : Command → Prop
  | counters command => command.Keeps (some kind)
  | merge _ _ => True

instance (kind : OperatorKind) : DecidablePred (Keeps kind) := fun command => by
  cases command <;> unfold Keeps <;> infer_instance

end Command

/-- What happens to the engine, in order. -/
abbrev Script := List Command

namespace Script

/-- The engine that a script leaves of a store that was never written.  A command that fails
does not end the script. -/
def run (default : UInt64) (options : Options) (script : Script) : Except Failure Layered :=
  Layered.fromEmpty options
    (script.forM fun command => (command.call default).caught >>= fun _ => pure ())

/-- The accounts that a script leaves. -/
def accounts (kind : OperatorKind) (default : UInt64) (script : Script) : Bytes → Account :=
  script.foldl (Command.next kind default) fun _ => .fresh

/-- The store is not opened with another operator. -/
def Keeps (kind : OperatorKind) (script : Script) : Prop := ∀ command ∈ script, command.Keeps kind

instance (kind : OperatorKind) (script : Script) : Decidable (script.Keeps kind) :=
  inferInstanceAs (Decidable (∀ command ∈ script, command.Keeps kind))

end Script

/-! ### Accounts and layers -/

/-- The layers give for every key what its account says. -/
def Holds (kind : OperatorKind) (accounts : Bytes → Account) (engine : Layered) : Prop :=
  ∀ key, (kind.operator.stepwise key).meaning (engine.history key) = (accounts key).bytes kind

section

variable {kind : OperatorKind} {accounts : Bytes → Account} {engine after : Layered}

theorem Holds.still (h : Holds kind accounts engine)
    (htakes : Layered.Takes kind.operator.stepwise [] engine after) : Holds kind accounts after :=
  fun key => (htakes key).trans (h key)

/-- A write changes the account of its own key and of no other. -/
theorem Holds.write (h : Holds kind accounts engine) {write : Write} {account : Account}
    (htakes : Layered.Takes kind.operator.stepwise [write] engine after)
    (hnext : (kind.operator.stepwise write.key).next ((accounts write.key).bytes kind)
      write.record = account.bytes kind) :
    Holds kind (Function.update accounts write.key account) after := by
  refine htakes.meaning_of_single h ?_ ?_
  · rw [Function.update_self]
    exact hnext
  · intro key hne
    rw [Function.update_of_ne hne]

/-! ### Reading -/

theorem result_decode (default : UInt64) (strategy : Counters.Strategy) (key : Bytes)
    (account : Account) (engine : Layered) :
    ((layered default strategy).decode key (account.bytes kind)).result engine =
      account.read kind default key := by
  rw [Account.read]
  cases hexposed : account.exposed? kind with
  | some size =>
    obtain ⟨operand, hbytes, rfl, hsize⟩ := Account.bytes_of_exposed hexposed
    rw [hbytes, Counters.decode, Counter.decode?_of_length_ne hsize]
    rfl
  | none =>
    rcases Account.bytes_of_not_exposed hexposed default with hbytes | ⟨hbytes, hvalue⟩
    · rw [hbytes, Counters.decode, Counter.decode?_encode]
      rfl
    · rw [hbytes, hvalue]
      rfl

theorem after_decode (counters : Counters Layered) (key : Bytes) (stored : Option Bytes)
    (engine : Layered) : (counters.decode key stored).after engine = engine := by
  cases stored with
  | none => rfl
  | some bytes =>
    rw [Counters.decode]
    cases Counter.decode? bytes <;> rfl

/-- A counter reads as its account says, and nothing changes. -/
theorem Holds.get (h : Holds kind accounts engine) (hopen : engine.OpenUnder (some kind))
    (default : UInt64) (strategy : Counters.Strategy) (key : Bytes) :
    ((layered default strategy).get key).result engine = (accounts key).read kind default key ∧
      ((layered default strategy).get key).after engine = engine := by
  have hread : (Layered.engine.get key).Gives engine ((accounts key).bytes kind) engine :=
    ⟨(hopen.result_get key).trans (congrArg Except.ok (h key)), rfl⟩
  have hissue := Counters.gives_issue hread .get key
  have hreport := Call.gives_report (Counters.Event.reading key) engine
  constructor
  · exact (hreport.result_bind _).trans
      ((hissue.result_bind _).trans (result_decode default strategy key _ engine))
  · exact (hreport.after_bind _).trans ((hissue.after_bind _).trans (after_decode _ key _ engine))

/-! ### Every command -/

/-- A write that is issued through the counters succeeds and changes the account of its key. -/
theorem Holds.issue (h : Holds kind accounts engine) (hopen : engine.OpenUnder (some kind))
    (action : Counters.Action) (write : Write) (account : Account)
    (hnext : (kind.operator.stepwise write.key).next ((accounts write.key).bytes kind)
      write.record = account.bytes kind) :
    ∃ after, Call.Gives
        (report (Counters.Event.writing write.key) >>= fun _ =>
          Counters.issue action write.key (Layered.write [write])) engine () after ∧
      after.OpenUnder (some kind) ∧
        Holds kind (Function.update accounts write.key account) after := by
  obtain ⟨after, hgives, hafter, htakes⟩ := Counters.gives_write hopen action write
  exact ⟨after, hgives, hafter, h.write (htakes (Resolution.respects_stepwise kind)) hnext⟩

/-- To read and write does both, or fails as reading fails and does nothing. -/
theorem Holds.readModifyWrite (h : Holds kind accounts engine)
    (hopen : engine.OpenUnder (some kind)) (default : UInt64) (key : Bytes) (delta : UInt64) :
    ∃ after,
      ((layered default .readModifyWrite).add key delta).result engine =
        ((accounts key).read kind default key).map (fun _ => ()) ∧
      ((layered default .readModifyWrite).add key delta).after engine = after ∧
      after.OpenUnder (some kind) ∧
      Holds kind (Command.rewritten kind default accounts key delta) after := by
  obtain ⟨hresult, hsame⟩ := h.get hopen default .readModifyWrite key
  unfold Command.rewritten
  cases hread : (accounts key).read kind default key with
  | error failure =>
    -- a counter that cannot be read is not written
    rw [hread] at hresult
    exact ⟨engine, Call.result_bind_of_error hresult _,
      (Call.after_bind_of_error hresult _).trans hsame, hopen, h⟩
  | ok value =>
    -- the read has left the engine as it was, and the write goes on from there
    rw [hread] at hresult
    obtain ⟨after, hset, hafter, hholds⟩ :=
      h.issue hopen .set (.put key (encode (value + delta))) ⟨some (value + delta), []⟩ rfl
    have hadd : ((layered default .readModifyWrite).add key delta).Gives engine () after :=
      Call.Gives.bind ⟨hresult, hsame⟩ hset
    exact ⟨after, hadd.1, hadd.2, hafter, hholds⟩

/-- A call on the engine that writes nothing does not change what the accounts say. -/
theorem Holds.rearranged (h : Holds kind accounts engine) {call : Call Engine.Event Layered Unit}
    (hruns : Layered.Runs (some kind) [] call engine after) :
    ∃ after, (call.relabel Counters.Event.engine).Gives engine () after ∧
      after.OpenUnder (some kind) ∧ Holds kind accounts after := by
  obtain ⟨hgives, hafter, htakes⟩ := hruns
  exact ⟨after, hgives.relabel Counters.Event.engine, hafter,
    h.still (htakes (Resolution.respects_stepwise kind))⟩

/-- A command answers as the accounts say, and they go on holding. -/
theorem Holds.answers (h : Holds kind accounts engine) (hopen : engine.OpenUnder (some kind))
    (default : UInt64) {command : Command} (hkeeps : command.Keeps kind) :
    ∃ after, (command.call default).result engine = command.answer kind default accounts ∧
      (command.call default).after engine = after ∧ after.OpenUnder (some kind) ∧
      Holds kind (command.next kind default accounts) after := by
  -- all but to read and write succeeds
  suffices hgives : (∃ key delta, command = .counters (.add .readModifyWrite key delta)) ∨
      (command.answer kind default accounts = .ok () ∧
        ∃ after, (command.call default).Gives engine () after ∧ after.OpenUnder (some kind) ∧
          Holds kind (command.next kind default accounts) after) by
    rcases hgives with ⟨key, delta, rfl⟩ | ⟨hanswer, after, hgives, hafter, hholds⟩
    · exact h.readModifyWrite hopen default key delta
    · exact ⟨after, hgives.1.trans hanswer.symm, hgives.2, hafter, hholds⟩
  cases command with
  | merge key operand =>
    obtain ⟨after, hgives, hafter, htakes⟩ := hopen.runs_write [.merge key operand]
    refine .inr ⟨rfl, after, hgives, hafter, ?_⟩
    exact h.write (htakes (Resolution.respects_stepwise kind))
      (Account.bytes_merge kind key _ operand).symm
  | counters command =>
    cases command with
    | set strategy key value =>
      exact .inr ⟨rfl, h.issue hopen .set (.put key (encode value)) ⟨some value, []⟩ rfl⟩
    | remove strategy key => exact .inr ⟨rfl, h.issue hopen .remove (.delete key) .fresh rfl⟩
    | add strategy key delta =>
      cases strategy with
      | readModifyWrite => exact .inl ⟨key, delta, rfl⟩
      | merge =>
        exact .inr ⟨rfl, h.issue hopen .add (.merge key (encode delta))
          ((accounts key).merge (encode delta)) (Account.bytes_merge kind key _ _).symm⟩
    | flush => exact .inr ⟨rfl, h.rearranged hopen.runs_flush⟩
    | compact => exact .inr ⟨rfl, h.rearranged hopen.runs_compact⟩
    | reopen options =>
      have hsame : options.operator = some kind := hkeeps
      have hruns := hopen.runs_reopen options (.inr hsame.symm)
      rw [hsame] at hruns
      exact .inr ⟨rfl, h.rearranged hruns⟩

theorem Holds.gives_forM (h : Holds kind accounts engine) (hopen : engine.OpenUnder (some kind))
    (default : UInt64) {script : Script} (hkeeps : script.Keeps kind) :
    ∃ after, Call.Gives
        (script.forM fun command => (command.call default).caught >>= fun _ => pure ())
        engine () after ∧
      after.OpenUnder (some kind) ∧
      Holds kind (script.foldl (Command.next kind default) accounts) after := by
  induction script generalizing accounts engine with
  | nil => exact ⟨engine, Call.gives_pure () engine, hopen, h⟩
  | cons command script ih =>
    obtain ⟨hcommand, hscript⟩ := List.forall_mem_cons.mp hkeeps
    obtain ⟨middle, -, rfl, hmiddle, hholds⟩ := h.answers hopen default hcommand
    obtain ⟨after, hrest, hafter, hall⟩ := ih hholds hmiddle hscript
    -- a command that fails does not end the script
    have hcaught : Call.Gives ((command.call default).caught >>= fun _ => pure ()) engine ()
        ((command.call default).after engine) :=
      (Call.gives_caught _ engine).bind (Call.gives_pure () _)
    exact ⟨after, hcaught.bind hrest, hafter, hall⟩

end

theorem run_eq_ok (default : UInt64) {kind : OperatorKind} {options : Options} {script : Script}
    (hkind : options.operator = some kind) (hkeeps : script.Keeps kind) :
    ∃ engine, script.run default options = .ok engine ∧ engine.OpenUnder (some kind) ∧
      Holds kind (script.accounts kind default) engine := by
  have hempty : Holds kind (fun _ => .fresh) (Layered.opened [] none options) := fun _ => rfl
  obtain ⟨engine, hgives, hopen, hholds⟩ :=
    hempty.gives_forM (hkind ▸ Layered.openUnder_opened options) default hkeeps
  exact ⟨engine, Layered.fromEmpty_eq_ok_iff.mpr hgives, hopen, hholds⟩

/-- After every beginning of a script under one operator, with whatever operands, strategies and
chain limits, each counter reads as its account says: a malformed operand that is exposed is
reported with its size, and of every other account the value is read.  The next command answers
as the accounts say. -/
theorem get_run_eq_read (default : UInt64) {kind : OperatorKind} {options : Options}
    {script : Script} (hkind : options.operator = some kind) (hkeeps : script.Keeps kind) :
    ∀ done : Script, done <+: script →
      ∃ engine, done.run default options = .ok engine ∧
        (∀ strategy key, ((layered default strategy).get key).result engine =
          (done.accounts kind default key).read kind default key) ∧
        ∀ command, done ++ [command] <+: script →
          (command.call default).result engine =
            command.answer kind default (done.accounts kind default) := by
  intro done hdone
  obtain ⟨engine, hrun, hopen, hholds⟩ :=
    run_eq_ok default hkind fun command hmem => hkeeps command (hdone.subset hmem)
  refine ⟨engine, hrun, ?_, ?_⟩
  · intro strategy key
    exact (hholds.get hopen default strategy key).1
  · intro command hnext
    have hmem : command ∈ script := hnext.subset (List.mem_append_right done List.mem_cons_self)
    obtain ⟨after, hresult, -⟩ := hholds.answers hopen default (hkeeps command hmem)
    exact hresult

/-- One operand is read as corrupt and refuses to be added to until another comes; one counts as
zero over a value, and one is left exposed. -/
theorem get_run_eq_read_exposed :
    let options : Options := ⟨some .associative, 1, true⟩
    let script : Script :=
      [.merge [1] [9], .counters (.add .readModifyWrite [1] 4), .counters .flush,
        .counters (.add .merge [1] 5), .counters (.reopen ⟨some .associative, 0, true⟩),
        .counters (.set .merge [2] 3), .merge [2] [], .counters .compact, .merge [3] [7, 7]]
    options.operator = some .associative ∧ script.Keeps .associative ∧
      ∃ engine, script.run 10 options = .ok engine ∧
        ((layered 10 .merge).get [1]).result engine = .ok 5 ∧
        ((layered 10 .merge).get [2]).result engine = .ok 3 ∧
        ((layered 10 .merge).get [3]).result engine = .error (.corruption [3] 2) := by
  intro options script
  have hkind : options.operator = some .associative := rfl
  have hkeeps : script.Keeps .associative := by decide
  obtain ⟨engine, hrun, hget, -⟩ := get_run_eq_read 10 hkind hkeeps script List.prefix_rfl
  refine ⟨hkind, hkeeps, engine, hrun, ?_, ?_, ?_⟩
  · -- the malformed operand counts as nothing once another follows it
    exact (hget .merge [1]).trans rfl
  · exact (hget .merge [2]).trans rfl
  · exact (hget .merge [3]).trans rfl

/-- One malformed operand in an empty store is not read as zero. -/
theorem get_alone_eq_corruption :
    let options : Options := ⟨some .associative, 0, true⟩
    let script : Script := [.merge [107] [1]]
    options.operator = some .associative ∧ script.Keeps .associative ∧
      ∃ engine, script.run 0 options = .ok engine ∧
        ((layered 0 .merge).get [107]).result engine = .error (.corruption [107] 1) := by
  intro options script
  have hkind : options.operator = some .associative := rfl
  have hkeeps : script.Keeps .associative := by decide
  obtain ⟨engine, hrun, hopen, hholds⟩ := run_eq_ok 0 hkind hkeeps
  exact ⟨hkind, hkeeps, engine, hrun, (hholds.get hopen 0 .merge [107]).1.trans rfl⟩

end Containment
end LazyTally
