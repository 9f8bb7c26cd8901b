import Mathlib.Data.Int.CardIntervalMod
import LazyTally.Proofs.Acceptance
import LazyTally.Proofs.KeyCycle
import LazyTally.Proofs.StorageKeys

/-!
# Workloads that go round

Where nothing is left to chance, all workers go round in the same order.  On an engine that accepts
every add a counter is then added to as often as all workers come by, which is known from the number
of adds and the place of the counter in the round.  Only the amounts are drawn, so the counters of
the report are known as well, and with amounts of one the whole report is.

## Main definitions

* `Workload.Config.keyAt`, `Workload.Config.visited` — the counter of an add, and those of a round.

## Main results

* `Workload.Config.visits_eq` — how often a worker comes by a counter.
* `Workload.map_key_plan`, `Workload.delta_of_mem_planFrom` — what a worker adds to, and how much.
* `Workload.keys_report` — the counters of the report.
* `Workload.totals_of_rounds` — what the report says of each counter.
-/

namespace LazyTally.Workload

open KeySource (cycle indexAt Given)

/-! ### Counters in the order of a round -/

namespace Config

variable (config : Config)

/-- The counter that a worker adds to after `count` other adds. -/
def keyAt (count : Nat) : Bytes := storageKey (indexAt config.order config.keySpace count)

/-- The counters in the order in which a worker comes by. -/
def visited : List Bytes := (cycle config.order config.keySpace).map storageKey

theorem visited_eq_map_keyAt :
    config.visited = (List.range config.keySpace.toNat).map config.keyAt := by
  have hround := KeySource.map_indexAt_round config.order config.keySpace 0
  rw [Nat.zero_mul, ← List.range_eq_range'] at hround
  rw [visited, ← hround, List.map_map]
  rfl

theorem length_visited : config.visited.length = config.keySpace.toNat := by
  rw [visited, List.length_map, KeySource.length_cycle]

theorem nodup_visited : config.visited.Nodup :=
  (KeySource.nodup_cycle config.order config.keySpace).map fun _ _ => storageKey_inj

theorem getElem?_visited {place : Nat} (h : place < config.keySpace.toNat) :
    config.visited[place]? = some (config.keyAt place) := by
  rw [visited_eq_map_keyAt, List.getElem?_map, List.getElem?_range h, Option.map_some]

theorem keyAt_mod (count : Nat) :
    config.keyAt (count % config.keySpace.toNat) = config.keyAt count := by
  rw [keyAt, indexAt, Nat.mod_mod]
  rfl

/-- A worker comes by a counter at its place of each round, and at no other. -/
theorem keyAt_eq_iff {count place : Nat} (h : place < config.keySpace.toNat) :
    config.keyAt count = config.keyAt place ↔ count % config.keySpace.toNat = place := by
  have hnodup := config.nodup_visited
  rw [visited_eq_map_keyAt] at hnodup
  have hmod : count % config.keySpace.toNat < config.keySpace.toNat :=
    Nat.mod_lt _ (Nat.zero_lt_of_lt h)
  rw [← config.keyAt_mod count]
  constructor
  · exact List.inj_on_of_nodup_map hnodup (List.mem_range.mpr hmod) (List.mem_range.mpr h)
  · exact congrArg config.keyAt

/-- How often a worker comes by a counter in its adds. -/
def visits (place : Nat) : Nat :=
  Nat.count (fun count => count % config.keySpace.toNat = place) config.opsPerWorker.toNat

theorem count_map_keyAt {place : Nat} (h : place < config.keySpace.toNat) :
    ((List.range config.opsPerWorker.toNat).map config.keyAt).count (config.keyAt place) =
      config.visits place := by
  rw [List.count, List.countP_map, visits, Nat.count]
  refine List.countP_congr fun count _ => ?_
  simp [config.keyAt_eq_iff h]

/-- The first places of a round are visited once more than the others. -/
theorem visits_eq {place : Nat} (h : place < config.keySpace.toNat) :
    config.visits place =
      config.opsPerWorker.toNat / config.keySpace.toNat +
        if place < config.opsPerWorker.toNat % config.keySpace.toNat then 1 else 0 := by
  have hcount := Nat.count_modEq_card config.opsPerWorker.toNat (Nat.zero_lt_of_lt h) place
  simp only [Nat.ModEq, Nat.mod_eq_of_lt h] at hcount
  exact hcount

/-- A worker comes to the places before the end of its adds. -/
theorem visits_eq_zero_iff {place : Nat} (h : place < config.keySpace.toNat) :
    config.visits place = 0 ↔ config.opsPerWorker.toNat ≤ place := by
  rw [config.visits_eq h]
  by_cases hround : config.opsPerWorker.toNat < config.keySpace.toNat
  · rw [Nat.div_eq_of_lt hround, Nat.mod_eq_of_lt hround]
    split <;> omega
  · -- every counter is visited in the first round
    have hpos : 0 < config.opsPerWorker.toNat / config.keySpace.toNat :=
      Nat.div_pos (Nat.not_lt.mp hround) (Nat.zero_lt_of_lt h)
    omega

end Config

/-! ### What the workers add to -/

variable {config : Config} {source : KeySource} {count : Nat}

theorem map_key_planFrom (h : source.Given config.order config.keySpace count)
    (hchance : config.order ≠ .random) (worker remaining index : Nat) :
    (planFrom config worker remaining index source).map (fun planned => planned.add.key) =
      (List.range' count remaining).map config.keyAt := by
  induction remaining generalizing source count index with
  | zero => rfl
  | succ remaining ih =>
    have hafter : (nextAdd config source).2.Given config.order config.keySpace (count + 1) :=
      h.nextIndex.drawn 1 config.maxDelta
    have hkey : (nextAdd config source).1.key = config.keyAt count := by
      rw [Config.keyAt, ← h.nextIndex_eq hchance]
      rfl
    rw [planFrom, List.map_cons, ih hafter, List.range'_succ, List.map_cons, hkey]

/-- Each worker goes round from the first counter on. -/
theorem map_key_plan (hkeys : 0 < config.keySpace) (hchance : config.order ≠ .random)
    (worker : Nat) :
    (plan config worker).map (fun planned => planned.add.key) =
      (List.range config.opsPerWorker.toNat).map config.keyAt := by
  rw [plan, keySource, map_key_planFrom (KeySource.given_start _ hkeys _) hchance,
    List.range_eq_range']

/-- The amounts are drawn from one to the largest. -/
theorem delta_of_mem_planFrom (hdelta : 1 ≤ config.maxDelta) {worker remaining index : Nat}
    {planned : Planned} (h : planned ∈ planFrom config worker remaining index source) :
    1 ≤ planned.add.delta ∧ planned.add.delta ≤ config.maxDelta := by
  induction remaining generalizing source index with
  | zero => cases h
  | succ remaining ih =>
    rcases List.mem_cons.mp h with rfl | hrest
    · exact Uniform.between_mem hdelta _
    · exact ih hrest

/-- The adds of all workers, each a counter and an amount. -/
def Config.additions (config : Config) : List (Bytes × UInt64) :=
  successes ((List.range config.workers.toNat).flatMap config.acceptedLog)

theorem additions_eq (config : Config) :
    config.additions = (List.range config.workers.toNat).flatMap fun worker =>
      (plan config worker).map fun planned => (planned.add.key, planned.add.delta) := by
  rw [Config.additions, successes, List.filterMap_flatMap]
  refine List.flatMap_congr fun worker _ => ?_
  rw [Config.acceptedLog, List.filterMap_map]
  exact (List.filterMap_congr fun planned _ => rfl).trans (congrFun List.filterMap_eq_map _)

/-- All workers go round alike. -/
theorem map_fst_additions (hkeys : 0 < config.keySpace) (hchance : config.order ≠ .random) :
    config.additions.map Prod.fst = (List.range config.workers.toNat).flatMap fun _ =>
      (List.range config.opsPerWorker.toNat).map config.keyAt := by
  rw [additions_eq, List.map_flatMap]
  refine List.flatMap_congr fun worker _ => ?_
  rw [List.map_map, ← map_key_plan hkeys hchance worker]
  rfl

/-- A counter is added to in each visit of each worker. -/
theorem count_additions (hkeys : 0 < config.keySpace) (hchance : config.order ≠ .random)
    {place : Nat} (h : place < config.keySpace.toNat) :
    (config.additions.map Prod.fst).count (config.keyAt place) =
      config.workers.toNat * config.visits place := by
  rw [map_fst_additions hkeys hchance, List.count_flatMap]
  simp [Function.comp_def, config.count_map_keyAt h]

/-! ### The counters of the report -/

theorem find?_report (config : Config) (key : Bytes) :
    config.report.expected.find? key = sum? (addends config.additions key) :=
  congrFun config.tells_report.totals_eq key

theorem full_report (config : Config) :
    config.report.Full (config.workers.toNat * config.opsPerWorker.toNat) := by
  refine ⟨?_, ?_, config.tells_report.ordered⟩
  · have heach : ∀ worker, (config.acceptedLog worker).length = config.opsPerWorker.toNat := by
      intro worker
      rw [Config.acceptedLog, List.length_map, plan, length_planFrom]
    rw [config.tells_report.operations_eq]
    simp [List.length_flatMap, heach]
  · rw [config.tells_report.failures_eq, List.countP_eq_zero]
    intro entry hentry
    obtain ⟨worker, -, hworker⟩ := List.mem_flatMap.mp hentry
    rw [decide_eq_true_iff]
    exact not_failed_of_mem_acceptedLog hworker

theorem addends_ne_nil_iff {additions : List (Bytes × UInt64)} {key : Bytes} :
    addends additions key ≠ [] ↔ key ∈ additions.map Prod.fst := by
  rw [addends, Ne, List.map_eq_nil_iff, List.filter_eq_nil_iff]
  simp

theorem mem_keys_report {key : Bytes} :
    key ∈ config.report.expected.keys ↔ key ∈ config.additions.map Prod.fst := by
  rw [KeyMap.mem_keys_iff (full_report config).ordered, ← addends_ne_nil_iff]
  simp [find?_report, sum?]

/-- The counters of the report are those that a worker comes to in its first round. -/
theorem keys_report (hworkers : 0 < config.workers) (hkeys : 0 < config.keySpace)
    (hchance : config.order ≠ .random) :
    config.report.expected.keys.Perm (config.visited.take config.opsPerWorker.toNat) := by
  have hnodup : config.report.expected.keys.Nodup := by
    refine List.Pairwise.map _ ?_ (full_report config).ordered
    intro entry other hlt heq
    exact List.lt_irrefl other.1 (heq ▸ hlt)
  have hvisited := config.nodup_visited.sublist
    (List.take_sublist config.opsPerWorker.toNat config.visited)
  -- neither list repeats a key, so it is enough that they have the same ones
  refine (List.perm_ext_iff_of_nodup hnodup hvisited).mpr fun key => ?_
  rw [mem_keys_report, map_fst_additions hkeys hchance, config.visited_eq_map_keyAt,
    ← List.map_take, List.take_range]
  constructor
  · intro hkey
    -- a later round visits the keys of the first one again
    obtain ⟨worker, -, hround⟩ := List.mem_flatMap.mp hkey
    obtain ⟨count, hcount, rfl⟩ := List.mem_map.mp hround
    refine List.mem_map.mpr ⟨count % config.keySpace.toNat, ?_, config.keyAt_mod count⟩
    rw [List.mem_range] at hcount ⊢
    have hle := Nat.mod_le count config.keySpace.toNat
    have hlt := Nat.mod_lt count (show 0 < config.keySpace.toNat from hkeys)
    omega
  · intro hkey
    -- the first worker alone visits all of them
    obtain ⟨count, hcount, rfl⟩ := List.mem_map.mp hkey
    rw [List.mem_range] at hcount
    refine List.mem_flatMap.mpr ⟨0, List.mem_range.mpr hworkers, ?_⟩
    exact List.mem_map_of_mem (List.mem_range.mpr (by omega))

/-! ### Amounts of one -/

/-- A counter is added to by one at a time. -/
theorem addends_of_ones (hone : config.maxDelta = 1) (key : Bytes) :
    addends config.additions key =
      List.replicate ((config.additions.map Prod.fst).count key) 1 := by
  rw [List.eq_replicate_iff]
  constructor
  · rw [addends, List.length_map, ← List.countP_eq_length_filter, List.count, List.countP_map]
    exact List.countP_congr fun addition _ => by simp
  · intro delta hdelta
    obtain ⟨addition, hmem, rfl⟩ := List.mem_map.mp hdelta
    have hadded := List.mem_of_mem_filter hmem
    rw [additions_eq] at hadded
    obtain ⟨worker, -, hplan⟩ := List.mem_flatMap.mp hadded
    obtain ⟨planned, hplanned, rfl⟩ := List.mem_map.mp hplan
    -- a delta is at least one, and here at most one
    have hlargest : (1 : UInt64) ≤ config.maxDelta := by rw [hone]; exact UInt64.le_refl 1
    obtain ⟨hlow, hhigh⟩ := delta_of_mem_planFrom hlargest hplanned
    rw [hone] at hhigh
    exact UInt64.le_antisymm hhigh hlow

theorem sum?_replicate_one (number : Nat) :
    sum? (List.replicate number 1) = if number = 0 then none else some (UInt64.ofNat number) := by
  have hsum : (List.replicate number (1 : UInt64)).sum = UInt64.ofNat number := by
    induction number with
    | zero => rfl
    | succ number ih =>
      rw [List.replicate_succ, List.sum_cons, ih, UInt64.ofNat_add, UInt64.add_comm]
      rfl
  rw [sum?, hsum]
  simp

/-- The report says how often its counters were added to. -/
theorem find?_report_of_ones (hone : config.maxDelta = 1) (key : Bytes) :
    config.report.expected.find? key =
      if (config.additions.map Prod.fst).count key = 0 then none
      else some (UInt64.ofNat ((config.additions.map Prod.fst).count key)) := by
  rw [find?_report, addends_of_ones hone, sum?_replicate_one]

/-- Neither the seed nor anything else that is left to chance can be seen in the report. -/
theorem report_congr {other : Config} (hone : config.maxDelta = 1) (hother : other.maxDelta = 1)
    (hworkers : other.workers = config.workers) (hops : other.opsPerWorker = config.opsPerWorker)
    (hsame : other.additions.map Prod.fst = config.additions.map Prod.fst) :
    other.report = config.report := by
  have hfull := full_report other
  rw [hworkers, hops] at hfull
  refine hfull.ordered.ext (full_report config).ordered
    (hfull.operations_eq.trans (full_report config).operations_eq.symm)
    (hfull.failures_eq.trans (full_report config).failures_eq.symm) ?_
  funext key
  rw [Report.totals, Report.totals, find?_report_of_ones hone, find?_report_of_ones hother, hsame]

/-- The counter at a place of the round gets one for each visit of each worker. -/
theorem find?_keyAt (hone : config.maxDelta = 1) (hworkers : 0 < config.workers)
    (hkeys : 0 < config.keySpace) (hchance : config.order ≠ .random) {place : Nat}
    (h : place < config.keySpace.toNat) :
    config.report.expected.find? (config.keyAt place) =
      if place < config.opsPerWorker.toNat then
        some (UInt64.ofNat (config.workers.toNat * config.visits place))
      else none := by
  have hpos : config.workers.toNat ≠ 0 := Nat.ne_of_gt hworkers
  rw [find?_report_of_ones hone, count_additions hkeys hchance h]
  by_cases hplace : place < config.opsPerWorker.toNat
  · -- a key that is visited is added to by every worker
    have hvisits : config.visits place ≠ 0 := fun hzero =>
      Nat.not_le.mpr hplace ((config.visits_eq_zero_iff h).mp hzero)
    rw [if_pos hplace, if_neg (Nat.mul_ne_zero hpos hvisits)]
  · have hvisits := (config.visits_eq_zero_iff h).mpr (Nat.not_lt.mp hplace)
    rw [if_neg hplace, hvisits, Nat.mul_zero, if_pos rfl]

namespace Config

/-- What a counter gets that all workers visit as often. -/
def share (config : Config) (visits : Nat) : UInt64 :=
  UInt64.ofNat (config.workers.toNat * visits)

/-- One visit more or less of each worker makes a difference. -/
theorem share_add_one_ne (hworkers : 0 < config.workers) (visits : Nat) :
    config.share (visits + 1) ≠ config.share visits := by
  have hmore : config.share (visits + 1) = config.share visits + config.workers := by
    rw [share, Nat.mul_succ, UInt64.ofNat_add, UInt64.ofNat_toNat, ← share]
  rw [hmore]
  intro heq
  rw [UInt64.add_eq_left.mp heq] at hworkers
  exact absurd hworkers (by decide)

end Config

theorem getD_find?_keyAt (hone : config.maxDelta = 1) (hworkers : 0 < config.workers)
    (hkeys : 0 < config.keySpace) (hchance : config.order ≠ .random) {place : Nat}
    (h : place < config.keySpace.toNat) :
    (config.report.expected.find? (config.keyAt place)).getD 0 =
      config.share (config.opsPerWorker.toNat / config.keySpace.toNat +
        if place < config.opsPerWorker.toNat % config.keySpace.toNat then 1 else 0) := by
  rw [find?_keyAt hone hworkers hkeys hchance h, ← config.visits_eq h]
  by_cases hplace : place < config.opsPerWorker.toNat
  · rw [if_pos hplace]
    rfl
  · rw [if_neg hplace, (config.visits_eq_zero_iff h).mpr (Nat.not_lt.mp hplace)]
    rfl

theorem count_lt {limit total : Nat} (h : limit ≤ total) :
    Nat.count (fun place => place < limit) total = limit := by
  obtain ⟨more, rfl⟩ := Nat.exists_eq_add_of_le h
  rw [Nat.count_add, Nat.count_of_forall fun _ hlt => hlt, Nat.count_of_forall_not, Nat.add_zero]
  intro place _
  omega

/-- So many counters get the larger share. -/
theorem countP_visited (hone : config.maxDelta = 1) (hworkers : 0 < config.workers)
    (hkeys : 0 < config.keySpace) (hchance : config.order ≠ .random) :
    config.visited.countP (fun key => (config.report.expected.find? key).getD 0 =
        config.share (config.opsPerWorker.toNat / config.keySpace.toNat + 1)) =
      config.opsPerWorker.toNat % config.keySpace.toNat := by
  have hle : config.opsPerWorker.toNat % config.keySpace.toNat ≤ config.keySpace.toNat :=
    (Nat.mod_lt _ (show 0 < config.keySpace.toNat from hkeys)).le
  rw [config.visited_eq_map_keyAt, List.countP_map]
  refine Eq.trans ?_ (count_lt hle)
  refine List.countP_congr fun place hplace => ?_
  have hshare := getD_find?_keyAt hone hworkers hkeys hchance (List.mem_range.mp hplace)
  have hne := Config.share_add_one_ne hworkers
    (config.opsPerWorker.toNat / config.keySpace.toNat)
  -- the larger share is that of the places visited once more
  rw [decide_eq_true_iff, Function.comp_apply, decide_eq_true_iff, hshare]
  by_cases hlt : place < config.opsPerWorker.toNat % config.keySpace.toNat
  · rw [if_pos hlt]
    exact ⟨fun _ => hlt, fun _ => rfl⟩
  · rw [if_neg hlt, Nat.add_zero]
    exact ⟨fun heq => absurd heq.symm hne, fun hyes => absurd hyes hlt⟩

/-! ### Runs that go round -/

/-- On every engine that accepts every add the workload gives the report, whether its workers run
one after the other or take turns. -/
def Config.Yields (config : Config) (report : Report) : Prop :=
  ∀ ⦃σ : Type⦄ ⦃counters : Counters σ⦄ ⦃state : σ⦄, counters.Accepts state →
    (run counters config).result state = .ok (.ok report) ∧
      ∀ schedule, config.Finishes schedule →
        (runInterleaved counters config schedule).result state = .ok (.ok report)

theorem yields_report (hvalid : refusal? config = none) : config.Yields config.report :=
  fun _ _ _ h => ⟨result_run_of_accepts h hvalid,
    fun _ hfinishes => result_runInterleaved_of_accepts h hvalid hfinishes⟩

theorem pos_of_valid (h : refusal? config = none) :
    0 < config.workers ∧ 0 < config.keySpace ∧ 0 < config.maxDelta := by
  have hpos : ∀ {word : UInt64}, word ≠ 0 → 0 < word := UInt64.pos_iff_ne_zero.mpr
  unfold refusal? at h
  split at h
  · cases h
  · split at h
    · cases h
    · split at h
      · cases h
      · exact ⟨hpos ‹_›, hpos ‹_›, hpos ‹_›⟩

/-- On an engine that accepts every add a workload that leaves nothing to chance gives a report that
is known beforehand.  The counters in it are those that a worker comes to in its first round, each
once, whatever the amounts are.  With amounts of one a counter gets one for each visit of each
worker: the first ones of the round, as many as a last round that is not completed has, get one
visit more than the others.  The seed has no part in it. -/
theorem totals_of_rounds (hvalid : refusal? config = none) (hchance : config.order ≠ .random) :
    ∃ report : Report,
      config.Yields report ∧
      report.Full (config.workers.toNat * config.opsPerWorker.toNat) ∧
      report.expected.keys.Perm (config.visited.take config.opsPerWorker.toNat) ∧
      report.expected.length = min config.opsPerWorker.toNat config.keySpace.toNat ∧
      (config.maxDelta = 1 →
        (∀ place key, config.visited[place]? = some key → report.expected.find? key =
          if place < config.opsPerWorker.toNat then
            some (UInt64.ofNat (config.workers.toNat *
              Nat.count (fun count => count % config.keySpace.toNat = place)
                config.opsPerWorker.toNat))
          else none) ∧
        (∃ less more : UInt64,
          less = UInt64.ofNat (config.workers.toNat *
            (config.opsPerWorker.toNat / config.keySpace.toNat)) ∧
          more = UInt64.ofNat (config.workers.toNat *
            (config.opsPerWorker.toNat / config.keySpace.toNat + 1)) ∧
          less ≠ more ∧
          config.visited.countP (fun key => (report.expected.find? key).getD 0 = more) =
            config.opsPerWorker.toNat % config.keySpace.toNat ∧
          ∀ key ∈ config.visited, (report.expected.find? key).getD 0 = less ∨
            (report.expected.find? key).getD 0 = more) ∧
        ∀ seed, Config.Yields { config with seed := seed } report) := by
  obtain ⟨hworkers, hkeys, -⟩ := pos_of_valid hvalid
  have hkeysOf := keys_report hworkers hkeys hchance
  refine ⟨config.report, yields_report hvalid, full_report config, hkeysOf, ?_, ?_⟩
  · -- every visited key is in the report once
    have hlength := hkeysOf.length_eq
    rw [KeyMap.keys, List.length_map, List.length_take, config.length_visited] at hlength
    exact hlength
  intro hone
  refine ⟨?_, ?_, ?_⟩
  · intro place key hkey
    have hplace : place < config.keySpace.toNat := by
      rw [← config.length_visited]
      exact (List.getElem?_eq_some_iff.mp hkey).choose
    rw [config.getElem?_visited hplace] at hkey
    rw [← Option.some.inj hkey]
    exact find?_keyAt hone hworkers hkeys hchance hplace
  · refine ⟨_, _, rfl, rfl, (Config.share_add_one_ne hworkers _).symm,
      countP_visited hone hworkers hkeys hchance, ?_⟩
    intro key hkey
    rw [config.visited_eq_map_keyAt] at hkey
    obtain ⟨place, hplace, rfl⟩ := List.mem_map.mp hkey
    rw [getD_find?_keyAt hone hworkers hkeys hchance (List.mem_range.mp hplace)]
    split
    · exact .inr rfl
    · exact .inl rfl
  · -- the order of visits does not depend on the seed, and every visit adds one
    intro seed
    let other : Config := { config with seed := seed }
    have hother : refusal? other = none := hvalid
    have hround : other.additions.map Prod.fst = config.additions.map Prod.fst := by
      have hsame : 0 < other.keySpace ∧ other.order ≠ .random := ⟨hkeys, hchance⟩
      exact (map_fst_additions hsame.1 hsame.2).trans (map_fst_additions hkeys hchance).symm
    have hsame : other.report = config.report := report_congr hone hone rfl rfl hround
    rw [← hsame]
    exact yields_report hother

/-- Two workers go round in a shuffled order of four counters, and stop in the middle of the second
round.  The counters of the first half have got two from each of them, and the others one, whatever
the seed is. -/
theorem totals_of_rounds_half :
    let engine := Layered.opened [] none ⟨some .fullPartial, 2, true⟩
    let counters := Counters.layered 0 .merge
    let config : Config := ⟨2, 6, 4, .uniqueRandom, 7, 1, true⟩
    refusal? config = none ∧ config.order ≠ .random ∧ counters.Accepts engine ∧
      ∃ report, (run counters config).result engine = .ok (.ok report) ∧
        (run counters { config with seed := 9 }).result engine = .ok (.ok report) ∧
        report.expected.length = 4 ∧
        report.expected.find? (storageKey 1) = some 4 ∧
        report.expected.find? (storageKey 3) = some 2 := by
  intro engine counters config
  have hvalid : refusal? config = none := by decide
  have hchance : config.order ≠ .random := by decide
  have haccepts : counters.Accepts engine := (Layered.openUnder_opened _).accepts 0
  obtain ⟨report, hyields, -, -, hlength, hones⟩ := totals_of_rounds hvalid hchance
  obtain ⟨hplaces, -, hseeds⟩ := hones rfl
  have hfirst : config.visited[0]? = some (storageKey 1) := by decide +kernel
  have hlast : config.visited[3]? = some (storageKey 3) := by decide +kernel
  refine ⟨hvalid, hchance, haccepts, report, (hyields haccepts).1, (hseeds 9 haccepts).1, hlength,
    ?_, ?_⟩
  · rw [hplaces 0 _ hfirst]
    decide
  · rw [hplaces 3 _ hlast]
    decide

end LazyTally.Workload
