import LazyTally.Proofs.MergeWork

/-!
# When the limit is reached

While nothing but single operands is merged into a key, its chain in the memtable grows by one
operand at a time until it is beyond the limit, and then it is resolved.  Over a put or a delete
nothing is left of its operands, so it takes one merge more than the limit to get there again.  Over
nothing they leave one operand behind, so it takes as many merges as the limit says; but the first
operand of all has nothing to stand for.

## Main definitions

* `Engine.Operation.MergesInto`, `Engine.Operation.Spares` — the calls that meet a key, and those
  that do not.
* `Layered.afterAll`, `Layered.mergeWork` — what calls leave, and what those among them raise that
  merge into a key.
* `Schedule.shown`, `Schedule.resolved` — how long a chain is after so many merges, and how often it
  was resolved.
* `Layered.Grown` — the chain of a key is as long as the schedule says.

## Main results

* `Schedule.schedule_succ`, `Schedule.work_succ` — what one merge more does to the schedule.
* `Layered.Grown.merged`, `Layered.Grown.work_merged` — a merge keeps to it.
* `Layered.Grown.run` — and so does a run of calls.
* `Layered.Reachable.limit_schedule` — the schedule of a key that the memtable does not know, and
  of one that was put or deleted last.
-/

namespace LazyTally

/-! ### Calls that meet a key -/

namespace Engine.Operation

/-- The call merges one operand into the key. -/
def MergesInto (key : Bytes) : Operation → Prop
  | merge k _ => k = key
  | _ => False

instance (key : Bytes) : DecidablePred (MergesInto key)
  | merge k _ => inferInstanceAs (Decidable (k = key))
  | put _ _ | delete _ | write _ | get _ | dump | flush | compact => isFalse id

/-- The call writes nothing on the key, and the memtable stays where it is. -/
def Spares (key : Bytes) : Operation → Prop
  | put k _ | delete k | merge k _ => k ≠ key
  | write batch => ∀ write ∈ batch, write.key ≠ key
  | get _ | dump => True
  | flush | compact => False

instance (key : Bytes) : DecidablePred (Spares key)
  | put k _ | delete k | merge k _ => inferInstanceAs (Decidable (k ≠ key))
  | write batch => inferInstanceAs (Decidable (∀ write ∈ batch, write.key ≠ key))
  | get _ | dump => isTrue trivial
  | flush | compact => isFalse id

/-- A call does not merge into a key that it spares. -/
theorem Spares.not_mergesInto {key : Bytes} {operation : Operation} (h : operation.Spares key) :
    ¬operation.MergesInto key := by
  cases operation with
  | merge k operand => exact h
  | _ => exact id

theorem exists_merge_of_mergesInto {key : Bytes} {operation : Operation}
    (h : operation.MergesInto key) : ∃ operand, operation = .merge key operand := by
  cases operation with
  | merge k operand =>
    obtain rfl : k = key := h
    exact ⟨operand, rfl⟩
  | _ => exact h.elim

end Engine.Operation

/-! ### The schedule -/

namespace Schedule

variable {limit : Nat}

/-- How many operands a resolution leaves: none over a put or a delete, and one over nothing. -/
def leftover (based : Bool) : Nat := if based then 0 else 1

/-- After how many merges more the limit is passed again. -/
def period (limit : Nat) (based : Bool) : Nat := limit + 1 - leftover based

/-- How many operands the chain shows after so many merges. -/
def shown (limit : Nat) (based : Bool) (merges : Nat) : Nat :=
  if merges < leftover based then 0
  else leftover based + (merges - leftover based) % period limit based

/-- How often the chain was resolved after so many merges. -/
def resolved (limit : Nat) (based : Bool) (merges : Nat) : Nat :=
  (merges - leftover based) / period limit based

/-- Counting on, the remainder grows by one or starts again, and then the quotient grows. -/
theorem succ_divMod {n p : Nat} (hpos : 0 < p) :
    ((n + 1) % p = if n % p + 1 < p then n % p + 1 else 0) ∧
      (n + 1) / p = if n % p + 1 < p then n / p else n / p + 1 := by
  have hsplit := Nat.div_add_mod n p
  have hless := Nat.mod_lt n hpos
  by_cases hroom : n % p + 1 < p
  · rw [if_pos hroom, if_pos hroom]
    have hnext : n + 1 = p * (n / p) + (n % p + 1) := by omega
    constructor
    · rw [hnext, Nat.mul_add_mod, Nat.mod_eq_of_lt hroom]
    · rw [hnext, Nat.mul_add_div hpos, Nat.div_eq_of_lt hroom, Nat.add_zero]
  · -- the period is full, and the next one begins
    rw [if_neg hroom, if_neg hroom]
    have hnext : n + 1 = p * (n / p + 1) := by
      rw [Nat.mul_succ]
      omega
    constructor
    · rw [hnext, Nat.mul_mod_right]
    · rw [hnext, Nat.mul_div_cancel_left _ hpos]

theorem leftover_le_one (based : Bool) : leftover based ≤ 1 := by
  cases based <;> decide

theorem shown_based (limit merges : Nat) : shown limit true merges = merges % (limit + 1) :=
  (if_neg (Nat.not_lt_zero merges)).trans (Nat.zero_add _)

theorem shown_bare {merges : Nat} (h : 1 ≤ merges) (limit : Nat) :
    shown limit false merges = 1 + (merges - 1) % limit :=
  if_neg (Nat.not_lt.mpr h)

/-- One merge more makes the chain longer, or has it resolved. -/
theorem schedule_succ (hlimit : 1 ≤ limit) (based : Bool) (merges : Nat) :
    (shown limit based (merges + 1) =
        if shown limit based merges < limit then shown limit based merges + 1
        else leftover based) ∧
      resolved limit based (merges + 1) =
        if shown limit based merges < limit then resolved limit based merges
        else resolved limit based merges + 1 := by
  have hleft := leftover_le_one based
  have hpos : 0 < period limit based := by
    unfold period
    omega
  unfold shown resolved
  by_cases hfirst : merges < leftover based
  · -- the first operand over nothing is what a resolution leaves
    obtain ⟨rfl, hone⟩ : merges = 0 ∧ leftover based = 1 := by omega
    have hroom : 0 < limit := hlimit
    rw [hone, if_pos Nat.zero_lt_one, if_pos hroom, if_pos hroom, if_neg (Nat.lt_irrefl 1)]
    simp
  · -- from here on each period begins with what a resolution leaves
    have hnext : merges + 1 - leftover based = merges - leftover based + 1 := by omega
    have hroom : (merges - leftover based) % period limit based + 1 < period limit based ↔
        leftover based + (merges - leftover based) % period limit based < limit := by
      unfold period
      omega
    obtain ⟨hmod, hdiv⟩ := succ_divMod (n := merges - leftover based) hpos
    rw [if_neg hfirst, if_neg (by omega), hnext, hmod, hdiv]
    by_cases hless : leftover based + (merges - leftover based) % period limit based < limit
    · rw [if_pos (hroom.mpr hless), if_pos (hroom.mpr hless), if_pos hless, if_pos hless]
      exact ⟨by omega, rfl⟩
    · rw [if_neg (mt hroom.mp hless), if_neg (mt hroom.mp hless), if_neg hless, if_neg hless]
      exact ⟨rfl, rfl⟩

/-- What a resolution raises. -/
def resolution (based : Bool) : List Ticker :=
  [if based then .fullMerge else .partialMerge, .chainLimitMerge]

/-- What all resolutions raise until so many merges are made. -/
def work (limit : Nat) (based : Bool) (merges : Nat) : List Ticker :=
  (List.replicate (resolved limit based merges) (resolution based)).flatten

theorem work_zero (limit : Nat) (based : Bool) : work limit based 0 = [] := by
  rw [work, resolved, Nat.zero_sub, Nat.zero_div]
  rfl

/-- One merge more raises nothing, or what a resolution raises. -/
theorem work_succ (hlimit : 1 ≤ limit) (based : Bool) (merges : Nat) :
    work limit based (merges + 1) =
      work limit based merges ++
        if shown limit based merges < limit then [] else resolution based := by
  rw [work, work, (schedule_succ hlimit based merges).2]
  split
  · rw [List.append_nil]
  · rw [List.replicate_succ', List.flatten_append, List.flatten_singleton]

end Schedule

namespace Layered

open Engine (Event)

/-- The engine after some calls, whether they succeed or not. -/
def afterAll (engine : Layered) (operations : List Engine.Operation) : Layered :=
  operations.foldl (fun engine operation => (operation.call Layered.engine).after engine) engine

/-- What those of some calls raise that merge into the key, one after the other. -/
def mergeWork (key : Bytes) : Layered → List Engine.Operation → List Ticker
  | _, [] => []
  | engine, operation :: rest =>
      let call := operation.call Layered.engine
      (if operation.MergesInto key then call.tickers Event.work? engine else []) ++
        mergeWork key (call.after engine) rest

/-- The chain of the key in the memtable is as it is after so many merges, over a put or a delete or
over nothing. -/
structure Grown (engine : Layered) (key : Bytes) (based : Bool) (merges : Nat) : Prop where
  /-- There is a put or a delete, or none. -/
  base : (Chain.ofRecords (engine.memtable.records key)).base.isSome = based
  /-- It shows as many operands as the schedule says. -/
  operands : engine.memtableOperands key = Schedule.shown engine.limit.toNat based merges

variable {engine : Layered} {kind : OperatorKind} {key : Bytes} {based : Bool} {merges : Nat}

/-- A batch without writes on a key leaves its records. -/
theorem records_written_of_spared (h : engine.Ascending) {batch : Batch}
    (hspares : ∀ write ∈ batch, write.key ≠ key) :
    (engine.written batch).memtable.records key = engine.memtable.records key := by
  have hnone : Write.history batch key = [] := by
    have hfilter : batch.filter (fun write => write.key = key) = [] :=
      List.filter_eq_nil_iff.mpr fun write hmem => by simpa using hspares write hmem
    rw [Write.history, hfilter]
    rfl
  have hkey : key ∉ batch.mergedKeys := by
    rw [Batch.mem_mergedKeys, hnone]
    rintro ⟨operand, hmem⟩
    cases hmem
  rw [records_written h, if_neg hkey, hnone, List.append_nil]

/-- A call that spares a key leaves its records in the memtable. -/
theorem OpenUnder.records_after_of_spares (h : engine.OpenUnder (some kind))
    {operation : Engine.Operation} (hspares : operation.Spares key) :
    ((operation.call Layered.engine).after engine).memtable.records key =
      engine.memtable.records key := by
  have hwrite : ∀ batch : Batch, (∀ write ∈ batch, write.key ≠ key) →
      ((write batch).after engine).memtable.records key = engine.memtable.records key := by
    intro batch hbatch
    rw [(gives_written h.total batch).2]
    exact records_written_of_spared h.ascending hbatch
  cases operation with
  | put k value => exact hwrite [.put k value] (List.forall_mem_singleton.mpr hspares)
  | delete k => exact hwrite [.delete k] (List.forall_mem_singleton.mpr hspares)
  | merge k operand => exact hwrite [.merge k operand] (List.forall_mem_singleton.mpr hspares)
  | write batch => exact hwrite batch hspares
  | get k =>
    -- a read leaves all records
    rw [Engine.Operation.call, Call.after_bind_pure]
    rfl
  | dump =>
    rw [Engine.Operation.call, Call.after_bind_pure]
    rfl
  -- these two do not spare the memtable
  | flush => exact hspares.elim
  | compact => exact hspares.elim

/-- A call that spares the key leaves its chain on schedule. -/
theorem Grown.spared (hgrown : engine.Grown key based merges) (h : engine.OpenUnder (some kind))
    {operation : Engine.Operation} (hspares : operation.Spares key) :
    ((operation.call Layered.engine).after engine).Grown key based merges := by
  have hrecords := h.records_after_of_spares hspares
  obtain ⟨-, hlimit⟩ := h.after_operation_eq operation
  constructor
  · rw [hrecords]
    exact hgrown.base
  · rw [Layers.memtableOperands, hrecords, hlimit]
    exact hgrown.operands

/-- A key that the memtable does not know has no base and no operands. -/
theorem grown_bare (hnone : engine.memtable.records key = []) : engine.Grown key false 0 := by
  constructor
  · rw [hnone]
    rfl
  · rw [Layers.memtableOperands, hnone]
    rfl

/-- A key that was put or deleted last has a base and no operands. -/
theorem grown_based {older : List Record} {base : Base}
    (hlast : engine.memtable.records key = older ++ [base.record]) :
    engine.Grown key true 0 := by
  have hchain : Chain.ofRecords (engine.memtable.records key) = ⟨some base, []⟩ := by
    rw [hlast, Chain.ofRecords_concat]
    cases base <;> rfl
  constructor
  · rw [hchain]
    rfl
  · rw [Layers.memtableOperands, hchain, Schedule.shown_based, Nat.zero_mod]
    rfl

/-- A single merge adds its operand to the records of its key. -/
theorem records_pushed_merge (h : engine.Ascending) (key operand : Bytes) :
    (engine.pushed [.merge key operand]).memtable.records key =
      engine.memtable.records key ++ [.merge operand] := by
  have hhistory : Write.history [.merge key operand] key = [.merge operand] := by
    rw [Write.history_cons]
    exact if_pos rfl
  rw [← hhistory]
  exact Layer.records_foldl_push h.1 [.merge key operand] key

/-- Before the limit is enforced, a single merge makes the chain longer by one. -/
theorem Grown.pushed (hgrown : engine.Grown key based merges) (h : engine.Ascending)
    (operand : Bytes) :
    (Chain.ofRecords ((engine.pushed [.merge key operand]).memtable.records key)).base.isSome =
        based ∧
      (engine.pushed [.merge key operand]).memtableOperands key =
        Schedule.shown engine.limit.toNat based merges + 1 := by
  have hchain : Chain.ofRecords ((engine.pushed [.merge key operand]).memtable.records key) =
      ⟨(Chain.ofRecords (engine.memtable.records key)).base,
        (Chain.ofRecords (engine.memtable.records key)).operands ++ [operand]⟩ := by
    rw [records_pushed_merge h, Chain.ofRecords_concat]
  constructor
  · rw [hchain]
    exact hgrown.base
  · rw [Layers.memtableOperands, hchain, List.length_append, ← hgrown.operands]
    rfl

/-- One merge into the key takes its chain one step further on the schedule. -/
theorem Grown.merged (hgrown : engine.Grown key based merges) (h : engine.OpenUnder (some kind))
    (hpos : engine.limit ≠ 0) (operand : Bytes) :
    ((Layered.engine.merge key operand).after engine).Grown key based (merges + 1) := by
  obtain ⟨hbase, hlength⟩ := hgrown.pushed h.ascending operand
  obtain ⟨hnext, -⟩ := Schedule.schedule_succ (one_le_toNat hpos) based merges
  -- the operand is pushed first, and then the limit may shorten the chain
  obtain ⟨hkept, hoperands⟩ := Resolution.chain_limited kind hpos key
    ((engine.pushed [.merge key operand]).memtable.records key)
  have hrecords : (engine.written [.merge key operand]).memtable.records key =
      Resolution.limited (some kind.operator) engine.limit key
        ((engine.pushed [.merge key operand]).memtable.records key) := by
    have hkeys : key ∈ Batch.mergedKeys [.merge key operand] := List.mem_cons_self
    rw [records_pushed_merge h.ascending, records_written h.ascending, if_pos hkeys, h.operator_eq,
      Write.history_cons]
    exact congrArg _ (congrArg _ (if_pos rfl))
  show ((write [.merge key operand]).after engine).Grown key based (merges + 1)
  rw [(gives_written h.total [.merge key operand]).2]
  constructor
  · rw [hrecords, hkept]
    exact hbase
  · rw [Layers.memtableOperands] at hlength
    rw [Layers.memtableOperands, hrecords, hoperands, hlength, hbase, limit_written, hnext]
    exact if_congr Nat.succ_le_iff rfl rfl

/-- One merge into the key raises what the schedule says. -/
theorem Grown.work_merged (hgrown : engine.Grown key based merges)
    (h : engine.OpenUnder (some kind)) (hpos : engine.limit ≠ 0) (operand : Bytes) :
    Schedule.work engine.limit.toNat based merges ++
        (Layered.engine.merge key operand).tickers Event.work? engine =
      Schedule.work engine.limit.toNat based (merges + 1) := by
  obtain ⟨hbase, hlength⟩ := hgrown.pushed h.ascending operand
  have hwork : (Layered.engine.merge key operand).tickers Event.work? engine =
      (engine.pushed [.merge key operand]).limitWork key :=
    (h.work_write [.merge key operand]).trans (List.flatMap_singleton ..)
  rw [hwork, limitWork, hlength, hbase, Schedule.work_succ (one_le_toNat hpos)]
  -- with room for the operand no work is done, and without it the chain is resolved once
  by_cases hroom : Schedule.shown engine.limit.toNat based merges < engine.limit.toNat
  · rw [if_pos hroom, if_neg]
    rintro ⟨-, hlong⟩
    exact absurd hlong (Nat.not_lt.mpr hroom)
  · rw [if_neg hroom, if_pos ⟨hpos, Nat.lt_succ_of_le (Nat.le_of_not_lt hroom)⟩]
    rfl

/-- Calls of which each merges into the key or spares it keep its chain on schedule, and the merges
among them raise what the schedule says. -/
theorem Grown.run (hgrown : engine.Grown key based merges) (h : engine.OpenUnder (some kind))
    {limit : UInt64} (hlimit : engine.limit = limit) (hpos : limit ≠ 0)
    {operations : List Engine.Operation}
    (hops : ∀ operation ∈ operations, operation.MergesInto key ∨ operation.Spares key) :
    (engine.afterAll operations).memtableOperands key =
        Schedule.shown limit.toNat based (merges + operations.countP (·.MergesInto key)) ∧
      Schedule.work limit.toNat based merges ++ engine.mergeWork key operations =
        Schedule.work limit.toNat based (merges + operations.countP (·.MergesInto key)) := by
  induction operations generalizing engine merges with
  | nil => exact ⟨hlimit ▸ hgrown.operands, List.append_nil _⟩
  | cons operation rest ih =>
    obtain ⟨hfirst, hrest⟩ := List.forall_mem_cons.mp hops
    obtain ⟨hopen, -⟩ := Life.openUnder_operation h operation
    obtain ⟨-, hkept⟩ := h.after_operation_eq operation
    have hnextLimit := hkept.trans hlimit
    subst hlimit
    rcases hfirst with hmerges | hspares
    · -- a merge into the key takes the schedule one further
      obtain ⟨operand, rfl⟩ := Engine.Operation.exists_merge_of_mergesInto hmerges
      obtain ⟨hafter, hwork⟩ := ih (hgrown.merged h hpos operand) hopen hnextLimit hrest
      have hcount : merges + (Engine.Operation.merge key operand :: rest).countP
          (·.MergesInto key) = merges + 1 + rest.countP (·.MergesInto key) := by
        rw [List.countP_cons_of_pos (by simpa using hmerges)]
        omega
      rw [hcount, mergeWork, if_pos hmerges, ← hwork, ← hgrown.work_merged h hpos operand,
        List.append_assoc]
      exact ⟨hafter, rfl⟩
    · -- any other operation leaves the chain of the key and does no work on it
      obtain ⟨hafter, hwork⟩ := ih (hgrown.spared h hspares) hopen hnextLimit hrest
      have hcount : (operation :: rest).countP (·.MergesInto key) =
          rest.countP (·.MergesInto key) :=
        List.countP_cons_of_neg (by simpa using hspares.not_mergesInto)
      rw [hcount, mergeWork, if_neg hspares.not_mergesInto, List.nil_append]
      exact ⟨hafter, hwork⟩

/-- Single operands are merged into a key, and between the merges other keys are written and keys
are read, but nothing is flushed or compacted.  If the memtable does not know the key, it shows one
operand and then as many more as merges are left when the limit divides them off, and for each time
that the limit goes into them there was a partial merge.  If the key was put or deleted last, it
shows the merges that are left when one more than the limit divides them off, and each time there
was a full merge. -/
theorem Reachable.limit_schedule (h : engine.Reachable) (hsome : engine.operator.isSome)
    (hpos : engine.limit ≠ 0) (key : Bytes) {operations : List Engine.Operation}
    (hops : ∀ operation ∈ operations, operation.MergesInto key ∨ operation.Spares key) :
    let merges := operations.countP (·.MergesInto key)
    let limit := engine.limit.toNat
    (engine.memtable.records key = [] → 1 ≤ merges →
      (engine.afterAll operations).memtableOperands key = 1 + (merges - 1) % limit ∧
      engine.mergeWork key operations =
        (List.replicate ((merges - 1) / limit) [.partialMerge, .chainLimitMerge]).flatten) ∧
    ∀ older base, engine.memtable.records key = older ++ [Base.record base] →
      (engine.afterAll operations).memtableOperands key = merges % (limit + 1) ∧
      engine.mergeWork key operations =
        (List.replicate (merges / (limit + 1)) [.fullMerge, .chainLimitMerge]).flatten := by
  intro merges limit
  obtain ⟨kind, hopen⟩ := h.exists_kind hsome
  -- the schedule of the source, by whether the chain has a base, from no merges at all
  have hrun : ∀ based, engine.Grown key based 0 →
      (engine.afterAll operations).memtableOperands key = Schedule.shown limit based merges ∧
        engine.mergeWork key operations = Schedule.work limit based merges := by
    intro based hgrown
    obtain ⟨hafter, hwork⟩ := hgrown.run hopen rfl hpos hops
    rw [Schedule.work_zero, List.nil_append] at hwork
    rw [Nat.zero_add] at hafter hwork
    exact ⟨hafter, hwork⟩
  constructor
  · intro hnone hmerges
    obtain ⟨hafter, hwork⟩ := hrun false (grown_bare hnone)
    rw [Schedule.shown_bare hmerges] at hafter
    exact ⟨hafter, hwork⟩
  · intro older base hlast
    obtain ⟨hafter, hwork⟩ := hrun true (grown_based hlast)
    rw [Schedule.shown_based] at hafter
    exact ⟨hafter, hwork⟩

/-- Under the limit two, six operands are merged into a key that only a run knows, and seven into a
key that was deleted, and in between keys are read and another key is written. -/
theorem Reachable.limit_schedule_two :
    let script : Script :=
      [.merge [1] [4], .merge [2] [5], .flush, .merge [2] [6], .delete [2], .put [3] [7]]
    let engine := Script.after script (Layered.opened [] none ⟨some .fullPartial, 2, true⟩)
    let operations : List Engine.Operation :=
      [.merge [2] [1], .merge [1] [1], .merge [1] [2], .get [1], .merge [2] [2], .merge [1] [3],
        .write [.merge [3] [1], .merge [3] [2], .merge [3] [4]], .merge [2] [3], .merge [2] [4],
        .dump, .merge [1] [4], .merge [1] [5], .merge [2] [5], .merge [2] [6], .delete [3],
        .merge [2] [7], .merge [1] [6]]
    engine.Reachable ∧ engine.operator.isSome ∧ engine.limit ≠ 0 ∧
      (engine.afterAll operations).memtableOperands [1] = 2 ∧
      engine.mergeWork [1] operations =
        [.partialMerge, .chainLimitMerge, .partialMerge, .chainLimitMerge] ∧
      (engine.afterAll operations).memtableOperands [2] = 1 ∧
      engine.mergeWork [2] operations =
        [.fullMerge, .chainLimitMerge, .fullMerge, .chainLimitMerge] := by
  intro script engine operations
  have hempty : Reachable (Layered.opened [] none ⟨some .fullPartial, 2, true⟩) :=
    .opened ⟨some .fullPartial, 2, true⟩ (result_ofStore (.inl rfl))
  have hreachable : engine.Reachable := hempty.after script
  have hsome : engine.operator.isSome := by decide
  have hpos : engine.limit ≠ 0 := by decide
  have hlimit : engine.limit.toNat = 2 := by decide
  have hfirst : ∀ operation ∈ operations, operation.MergesInto [1] ∨ operation.Spares [1] := by
    decide
  have hsecond : ∀ operation ∈ operations, operation.MergesInto [2] ∨ operation.Spares [2] := by
    decide
  have hsix : operations.countP (·.MergesInto [1]) = 6 := by decide
  have hseven : operations.countP (·.MergesInto [2]) = 7 := by decide
  obtain ⟨hbare, -⟩ := Reachable.limit_schedule hreachable hsome hpos [1] hfirst
  obtain ⟨-, hbased⟩ := Reachable.limit_schedule hreachable hsome hpos [2] hsecond
  have hunknown : engine.memtable.records [1] = [] := by decide
  have hdeleted : engine.memtable.records [2] = [.merge [6]] ++ [Base.tombstone.record] := by decide
  obtain ⟨hone, honeWork⟩ := hbare hunknown (by decide)
  obtain ⟨htwo, htwoWork⟩ := hbased _ _ hdeleted
  rw [hsix, hlimit] at hone honeWork
  rw [hseven, hlimit] at htwo htwoWork
  exact ⟨hreachable, hsome, hpos, hone, honeWork, htwo, htwoWork⟩

end Layered
end LazyTally
