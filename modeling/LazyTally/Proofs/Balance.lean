import LazyTally.Proofs.Accounting

/-!
# What a workload reports is what it stored

Workers add to counters of one engine, one after the other or side by side, and each reports what it
added.  The joined report is the account of the workload: all adds are in it, each counter has
got exactly its total, and nothing else has changed.  So whoever knows what the counters held
before can tell from the report what they hold now, and notices every add that is not in it.

## Main definitions

* `Workload.Setting.Settled` — all adds of all workers are in the engine and in their reports.
* `Workload.Advanced` — how far workers got in their turns.
* `Workload.Accounts` — a report is the account of what happened to an engine.

## Main results

* `Workload.Setting.Gained.gives_runWorkers` — what workers do that run one after the other.
* `Workload.Setting.Settled.gives_takeTurn`, `Workload.Setting.Settled.gives_takeTurns` — what one
  turn does, and what turns do in any order.
* `Workload.Setting.exists_mismatch_of_add` — an add that is not in the report is noticed.
* `Layered.Reachable.workload_accounts` — the report of a workload is its account.
-/

namespace LazyTally

open Counter (encode)
open Counters (layered)

namespace Workload

namespace Setting

variable {setting : Setting} {rest : Tally} {now : Layered}

/-! ### One worker after the other -/

/-- A worker that runs alone reports all its adds, and the counters get its totals. -/
theorem Gained.gives_runWorker (h : setting.Gained rest now) (number : Nat) :
    ∃ report after,
      (runWorker setting.counters setting.config number).Gives now (.ok report) after ∧
      report.Full setting.config.opsPerWorker.toNat ∧
      setting.Gained (rest.join report.totals) after := by
  -- a worker that has issued nothing leaves the tally as it is
  have hstart := Worker.sound_start setting.keySpace_pos number
  have hgained : setting.Gained
      (rest.join (Worker.start setting.config number).report.totals) now := by
    show setting.Gained (rest.join Tally.nothing) now
    rw [Tally.join_nothing]
    exact h
  obtain ⟨moved, after, hturns, hsound, hafter, hissued⟩ :=
    hstart.gives_turns hgained setting.config.opsPerWorker.toNat
  have hall : setting.config.opsPerWorker.toNat ≤ moved.issued := by
    have hzero : (Worker.start setting.config number).issued = 0 := rfl
    omega
  refine ⟨moved.report, after, ?_, hsound.full_of_le hall, hafter⟩
  -- a worker's run is its turns, taken one after the other
  rw [runWorker_eq_turns, map_eq_pure_bind, ← hsound.outcome_eq]
  exact hturns.bind (Call.gives_pure moved.outcome after)

/-- So does each of the workers that run one after the other. -/
theorem Gained.gives_runWorkers (h : setting.Gained rest now) (remaining number : Nat)
    (total : Report) :
    ∃ (reports : List Report) (after : Layered),
      (runWorkers setting.counters.add setting.config remaining number total).Gives now
        (.ok (reports.foldl Report.join total)) after ∧
      reports.length = remaining ∧
      (∀ report ∈ reports, report.Full setting.config.opsPerWorker.toNat) ∧
      setting.Gained (rest.join (Tally.sum (reports.map Report.totals))) after := by
  induction remaining generalizing rest now number total with
  | zero =>
    refine ⟨[], now, Call.gives_pure _ now, rfl, nofun, ?_⟩
    rw [List.map_nil, Tally.sum_nil, Tally.join_nothing]
    exact h
  | succ remaining ih =>
    obtain ⟨report, middle, hworker, hfull, hmiddle⟩ := h.gives_runWorker number
    obtain ⟨reports, after, hworkers, hlength, hall, hafter⟩ :=
      ih hmiddle (number + 1) (total.join report)
    refine ⟨report :: reports, after, hworker.bind hworkers, ?_, ?_, ?_⟩
    · rw [List.length_cons, hlength]
    · exact List.forall_mem_cons.mpr ⟨hfull, hall⟩
    · rw [List.map_cons, Tally.sum_cons, ← Tally.join_assoc]
      exact hafter

end Setting

/-! ### Workers in turns -/

/-- The totals of all workers. -/
def totalsOf (workers : List Worker) : Tally :=
  Tally.sum (workers.map fun worker => worker.report.totals)

/-- All adds that the workers have issued have succeeded, and the counters have got them. -/
structure Setting.Settled (setting : Setting) (workers : List Worker) (now : Layered) : Prop where
  /-- No add of a worker has failed. -/
  sound : ∀ worker ∈ workers, worker.Sound setting.config
  /-- The counters have got what the workers report. -/
  gained : setting.Gained (totalsOf workers) now

/-- Each worker has issued an add in each of its turns, as long as there was one left. -/
structure Advanced (config : Config) (turns : Nat → Nat) (workers moved : List Worker) :
    Prop where
  /-- The workers are the same. -/
  length_eq : moved.length = workers.length
  /-- So many adds were issued. -/
  issued_le : ∀ place worker last, workers[place]? = some worker → moved[place]? = some last →
    min config.opsPerWorker.toNat (worker.issued + turns place) ≤ last.issued

variable {config : Config} {setting : Setting} {now : Layered} {workers middle moved : List Worker}

theorem advanced_refl (config : Config) (workers : List Worker) :
    Advanced config (fun _ => 0) workers workers := by
  refine ⟨rfl, ?_⟩
  intro place worker last hworker hlast
  obtain rfl : worker = last := Option.some.inj (hworker.symm.trans hlast)
  exact Nat.min_le_right _ _

theorem Advanced.trans {turns turns' : Nat → Nat} (h : Advanced config turns workers middle)
    (hnext : Advanced config turns' middle moved) :
    Advanced config (fun place => turns place + turns' place) workers moved := by
  refine ⟨hnext.length_eq.trans h.length_eq, ?_⟩
  intro place worker last hworker hlast
  have hplace : place < middle.length := by
    rw [h.length_eq]
    exact (List.getElem?_eq_some_iff.mp hworker).choose
  have hbetween := List.getElem?_eq_getElem hplace
  have hfirst := h.issued_le place worker _ hworker hbetween
  have hsecond := hnext.issued_le place _ last hbetween hlast
  omega

/-- If the schedule finishes, everyone has issued all adds in the end. -/
theorem Advanced.all_issued {schedule : List Nat}
    (h : Advanced config schedule.count (startWorkers config) moved)
    (hfinishes : config.Finishes schedule) :
    ∀ last ∈ moved, config.opsPerWorker.toNat ≤ last.issued := by
  intro last hmem
  obtain ⟨place, hlast⟩ := List.mem_iff_getElem?.mp hmem
  have hplace : place < config.workers.toNat := by
    have hlt : place < moved.length := (List.getElem?_eq_some_iff.mp hlast).choose
    simpa [h.length_eq, startWorkers] using hlt
  have hstart : (startWorkers config)[place]? = some (Worker.start config place) := by
    simp [startWorkers, hplace]
  -- the worker has issued as many as it had turns, or is through
  have hissued := h.issued_le place _ last hstart hlast
  have hcount := hfinishes place hplace
  have hzero : (Worker.start config place).issued = 0 := rfl
  omega

theorem settled_startWorkers (setting : Setting) :
    setting.Settled (startWorkers setting.config) setting.engine := by
  constructor
  · intro worker hworker
    obtain ⟨number, -, rfl⟩ := List.mem_map.mp hworker
    exact Worker.sound_start setting.keySpace_pos number
  · have hnothing : totalsOf (startWorkers setting.config) = Tally.nothing := by
      rw [totalsOf, startWorkers, List.map_map]
      exact Tally.sum_map_nothing _
    rw [hnothing]
    exact setting.gained_nothing

/-- What the totals are besides those of one worker does not change in its turn. -/
theorem exists_totalsOf_set {place : Nat} (hplace : place < workers.length) :
    ∃ rest : Tally, ∀ moved : Worker,
      totalsOf (workers.set place moved) = rest.join moved.report.totals := by
  refine ⟨totalsOf (workers.take place ++ workers.drop (place + 1)), ?_⟩
  intro moved
  rw [List.set_eq_take_append_cons_drop, if_pos hplace, totalsOf, totalsOf, List.map_append,
    List.map_cons, Tally.sum_append_cons, List.map_append]

/-- Whose turn it may be, the counters get what that worker reports. -/
theorem Setting.Settled.gives_takeTurn (h : setting.Settled workers now) (place : Nat) :
    ∃ moved after,
      (takeTurn setting.counters setting.config place workers).Gives now moved after ∧
      setting.Settled moved after ∧
      Advanced setting.config (fun k => if place = k then 1 else 0) workers moved := by
  unfold takeTurn
  cases hplace : workers[place]? with
  | none =>
    -- a turn of a worker that does not exist changes nothing
    refine ⟨workers, now, Call.gives_pure workers now, h, rfl, ?_⟩
    intro k worker last hworker hlast
    have hne : place ≠ k := by
      rintro rfl
      rw [hplace] at hworker
      cases hworker
    rw [if_neg hne]
    exact (advanced_refl _ _).issued_le k worker last hworker hlast
  | some worker =>
    obtain ⟨hlt, hworker⟩ := List.getElem?_eq_some_iff.mp hplace
    have hsound : worker.Sound setting.config := h.sound worker (hworker ▸ List.getElem_mem hlt)
    -- the worker whose turn it is apart, and the tally of all others
    obtain ⟨rest, hrest⟩ := exists_totalsOf_set hlt
    have hgained : setting.Gained (rest.join worker.report.totals) now := by
      rw [← hrest worker, ← hworker, List.set_getElem_self]
      exact h.gained
    obtain ⟨moved, after, hturn, hmoved, hafter, hissued⟩ := hsound.gives_turn hgained
    refine ⟨workers.set place moved, after, hturn.bind (Call.gives_pure _ after), ?_, ?_, ?_⟩
    · constructor
      · intro other hother
        rcases List.mem_or_eq_of_mem_set hother with hold | rfl
        · exact h.sound other hold
        · exact hmoved
      · rw [hrest moved]
        exact hafter
    · exact List.length_set
    · intro k other last hother hlast
      -- only the worker whose turn it was has issued more
      by_cases hk : place = k
      · subst hk
        rw [List.getElem?_set_self hlt] at hlast
        obtain rfl := Option.some.inj hlast
        obtain rfl := Option.some.inj (hplace.symm.trans hother)
        rw [if_pos rfl]
        exact hissued
      · rw [List.getElem?_set_ne hk] at hlast
        rw [if_neg hk]
        exact (advanced_refl _ _).issued_le k other last hother hlast

/-- In whatever order they take turns, all workers stay settled with the engine. -/
theorem Setting.Settled.gives_takeTurns (h : setting.Settled workers now) (schedule : List Nat) :
    ∃ moved after,
      (takeTurns setting.counters setting.config schedule workers).Gives now moved after ∧
      setting.Settled moved after ∧ Advanced setting.config schedule.count workers moved := by
  induction schedule generalizing workers now with
  | nil => exact ⟨workers, now, Call.gives_pure workers now, h, advanced_refl _ workers⟩
  | cons place schedule ih =>
    obtain ⟨middle, between, hturn, hmiddle, hfirst⟩ := h.gives_takeTurn place
    obtain ⟨moved, after, hturns, hmoved, hrest⟩ := ih hmiddle
    refine ⟨moved, after, hturn.bind hturns, hmoved, ?_⟩
    -- this turn and the turns to come
    have hcount : (place :: schedule).count = fun k =>
        (if place = k then 1 else 0) + schedule.count k := by
      funext k
      rw [List.count_cons, Nat.add_comm]
      simp
    rw [hcount]
    exact hfirst.trans hrest

/-! ### The joined report -/

/-- Workers without an error have their reports joined. -/
theorem joinReports_eq (h : ∀ worker ∈ workers, worker.outcome = .ok worker.report) :
    joinReports workers = .ok ((workers.map Worker.report).foldl Report.join Report.empty) := by
  have houtcomes : workers.mapM Worker.outcome = .ok (workers.map Worker.report) := by
    induction workers with
    | nil => rfl
    | cons worker workers ih =>
      obtain ⟨hworker, hworkers⟩ := List.forall_mem_cons.mp h
      rw [List.mapM_cons, hworker, ih hworkers]
      rfl
  rw [joinReports, houtcomes]
  rfl

namespace Setting

theorem refusal?_eq_none (setting : Setting) (hworkers : 0 < setting.config.workers)
    (hdelta : 0 < setting.config.maxDelta) : refusal? setting.config = none := by
  have hne : ∀ {word : UInt64}, 0 < word → word ≠ 0 := by
    rintro word hpos rfl
    exact absurd hpos (by decide)
  rw [refusal?, if_neg (hne hworkers), if_neg (hne setting.keySpace_pos), if_neg (hne hdelta)]

/-- If the counters have got the totals of all reports, they have got those of the joined one. -/
theorem Gained.joined {reports : List Report} {count : Nat}
    (h : setting.Gained (Tally.sum (reports.map Report.totals)) now)
    (hfull : ∀ report ∈ reports, report.Full count) :
    (reports.foldl Report.join Report.empty).Full (reports.length * count) ∧
      setting.Gained (reports.foldl Report.join Report.empty).totals now := by
  have hempty : Report.empty.Full 0 := ⟨rfl, rfl, Report.ordered_empty⟩
  obtain ⟨hall, htotals⟩ := hempty.foldl_join hfull
  rw [Nat.zero_add] at hall
  rw [Report.totals_empty, Tally.nothing_join] at htotals
  rw [htotals]
  exact ⟨hall, h⟩

/-- The workload succeeds with a report of all its adds, and the counters have got its totals. -/
def Succeeds (setting : Setting) (call : Call Event Layered (Except Error Report)) : Prop :=
  ∃ report after, call.Gives setting.engine (.ok report) after ∧
    report.Full (setting.config.workers.toNat * setting.config.opsPerWorker.toNat) ∧
    setting.Gained report.totals after

theorem succeeds_run (setting : Setting) (hrefusal : refusal? setting.config = none) :
    setting.Succeeds (run setting.counters setting.config) := by
  obtain ⟨reports, after, hgives, hlength, hfull, hgained⟩ :=
    setting.gained_nothing.gives_runWorkers setting.config.workers.toNat 0 Report.empty
  rw [Tally.nothing_join] at hgained
  obtain ⟨hall, htotals⟩ := hgained.joined hfull
  rw [hlength] at hall
  refine ⟨_, after, ?_, hall, htotals⟩
  rw [run, runWith, hrefusal]
  exact (Call.gives_report _ setting.engine).bind hgives

theorem succeeds_runInterleaved (setting : Setting) (hrefusal : refusal? setting.config = none)
    {schedule : List Nat} (hfinishes : setting.config.Finishes schedule) :
    setting.Succeeds (runInterleaved setting.counters setting.config schedule) := by
  obtain ⟨moved, after, hgives, hsettled, hadvanced⟩ :=
    (settled_startWorkers setting).gives_takeTurns schedule
  have hlength : (moved.map Worker.report).length = setting.config.workers.toNat := by
    simp [hadvanced.length_eq, startWorkers]
  have hfull : ∀ report ∈ moved.map Worker.report,
      report.Full setting.config.opsPerWorker.toNat := by
    intro report hreport
    obtain ⟨worker, hworker, rfl⟩ := List.mem_map.mp hreport
    exact (hsettled.sound worker hworker).full_of_le (hadvanced.all_issued hfinishes worker hworker)
  have hgained :
      setting.Gained (Tally.sum ((moved.map Worker.report).map Report.totals)) after := by
    rw [List.map_map]
    exact hsettled.gained
  obtain ⟨hall, htotals⟩ := hgained.joined hfull
  rw [hlength] at hall
  refine ⟨_, after, ?_, hall, htotals⟩
  -- no worker ended early, so the reports are all joined
  have hjoined := joinReports_eq fun worker hworker => (hsettled.sound worker hworker).outcome_eq
  rw [runInterleaved, hrefusal, ← hjoined]
  exact (Call.gives_report _ setting.engine).bind (hgives.bind (Call.gives_pure _ after))

end Setting

/-! ### Accounts -/

/-- The report is the account of what happened to an engine whose counters held something. -/
structure Accounts (default : UInt64) (strategy : Counters.Strategy) (config : Config)
    (engine : Layered) (held : Tally) (report : Report) (after : Layered) : Prop where
  /-- All adds of all workers were issued. -/
  operations_eq : report.operations = config.workers.toNat * config.opsPerWorker.toNat
  /-- None of them failed. -/
  failures_eq : report.failures = 0
  /-- Only counters of the workload were added to. -/
  isCounter : ∀ entry ∈ report.expected, config.IsCounter entry.1
  /-- Those that were read as what they held, or were taken for, and their total. -/
  result_get : ∀ entry ∈ report.expected,
    ((layered default strategy).get entry.1).result after =
      .ok ((held entry.1).getD (Counters.Command.absent default strategy) + entry.2)
  /-- All other keys read as before. -/
  untouched : ∀ key, key ∉ report.expected.keys →
    (Layered.engine.get key).result after = (Layered.engine.get key).result engine
  /-- If all of them held the same before, there are no mismatches, whatever is rearranged. -/
  mismatches_nil : ∀ base : UInt64, (∀ entry ∈ report.expected,
      (held entry.1).getD (Counters.Command.absent default strategy) = base) →
    ∀ script : Script, script.Rearranges engine.operator →
      (report.mismatches (layered default strategy) base).result (script.after after) = .ok []
  /-- After one more add, whatever is rearranged, the counter that got it is the only mismatch. -/
  mismatches_add : ∀ base : UInt64, (∀ entry ∈ report.expected,
      (held entry.1).getD (Counters.Command.absent default strategy) = base) →
    ∀ script : Script, script.Rearranges engine.operator →
      ∀ entry ∈ report.expected, ∀ delta : UInt64, delta ≠ 0 →
        ∃ last, ((layered default strategy).add entry.1 delta).Gives (script.after after) () last ∧
          ∀ later : Script, later.Rearranges engine.operator →
            (report.mismatches (layered default strategy) base).result (later.after last) =
              .ok [⟨entry.1, base + entry.2, base + entry.2 + delta⟩]

/-- The counters of the report read as their totals on top of a base. -/
def Report.ReadsOn (report : Report) (base : UInt64) (now : Layered) : Prop :=
  ∀ entry ∈ report.expected,
    (Layered.engine.get entry.1).result now = .ok ((some (base + entry.2)).map encode)

namespace Setting

variable {report : Report} {after : Layered}

/-- Whatever is rearranged under the operator of the engine, each key reads as before. -/
theorem result_get_rearranged (setting : Setting) (hopen : now.OpenUnder setting.operator)
    {script : Script} (hscript : script.Rearranges setting.engine.operator) :
    (script.after now).OpenUnder setting.operator ∧ ∀ key,
      (Layered.engine.get key).result (script.after now) = (Layered.engine.get key).result now := by
  have hsame : setting.engine.operator = now.operator :=
    setting.openUnder.operator_eq.trans hopen.operator_eq.symm
  rw [hsame] at hscript
  exact hopen.result_get_rearranged hscript

variable {base : UInt64}

/-- If they do, there are no mismatches. -/
theorem result_mismatches_nil (setting : Setting) (h : report.ReadsOn base now) :
    (report.mismatches setting.counters base).result now = .ok [] := by
  have hnil := Report.gives_mismatches_nil fun entry hentry =>
    Counters.gives_get_of_stored (h entry hentry) setting.default setting.strategy
  exact hnil.1

/-- After one more add, the counter that got it is the only mismatch. -/
theorem exists_mismatch_of_add (setting : Setting) (hopen : now.OpenUnder setting.operator)
    (h : report.ReadsOn base now) (hordered : report.Ordered) {entry : Bytes × UInt64}
    (hentry : entry ∈ report.expected) {delta : UInt64} (hdelta : delta ≠ 0) :
    ∃ last, (setting.counters.add entry.1 delta).Gives now () last ∧
      ∀ later : Script, later.Rearranges setting.engine.operator →
        (report.mismatches setting.counters base).result (later.after last) =
          .ok [⟨entry.1, base + entry.2, base + entry.2 + delta⟩] := by
  obtain ⟨last, hadd, hlast, hself, hothers⟩ := Counters.gives_add_of_stored hopen
    setting.default setting.strategy_eq (h entry hentry) delta
  refine ⟨last, hadd, ?_⟩
  intro later hlater
  -- what comes later rearranges the records, and no read sees it
  obtain ⟨-, hsame⟩ := setting.result_get_rearranged hlast hlater
  have hentryRead : (Layered.engine.get entry.1).result (later.after last) =
      .ok ((some (base + entry.2 + delta)).map encode) := (hsame entry.1).trans hself
  have hotherRead : ∀ other ∈ report.expected, other.1 ≠ entry.1 →
      (setting.counters.get other.1).Gives (later.after last) (base + other.2)
        (later.after last) := by
    intro other hother hne
    have hread : (Layered.engine.get other.1).result (later.after last) =
        .ok ((some (base + other.2)).map encode) := by
      rw [hsame other.1, hothers other.1 hne, h other hother]
    exact Counters.gives_get_of_stored hread setting.default setting.strategy
  -- among different keys, only the one that was added to differs
  have hlisted := Report.gives_mismatches_singleton hordered hentry hdelta
    (Counters.gives_get_of_stored hentryRead setting.default setting.strategy) hotherRead
  exact hlisted.1

/-- A report with all adds, whose totals the counters have got, is an account. -/
theorem Gained.accounts (h : setting.Gained report.totals after)
    (hfull : report.Full (setting.config.workers.toNat * setting.config.opsPerWorker.toNat)) :
    Accounts setting.default setting.strategy setting.config setting.engine setting.held report
      after := by
  have htotal : ∀ entry ∈ report.expected, report.totals entry.1 = some entry.2 :=
    fun entry hentry => (KeyMap.find?_eq_some_iff hfull.ordered).mpr hentry
  have hread : ∀ entry ∈ report.expected, (Layered.engine.get entry.1).result after =
      .ok ((some ((setting.held entry.1).getD setting.absent + entry.2)).map encode) := by
    intro entry hentry
    rw [h.result_get entry.1, htotal entry hentry]
    rfl
  -- if all held the same, they go on reading alike whatever is rearranged
  have hbalanced : ∀ base, (∀ entry ∈ report.expected,
      (setting.held entry.1).getD setting.absent = base) → ∀ script : Script,
        script.Rearranges setting.engine.operator →
          (script.after after).OpenUnder setting.operator ∧
            report.ReadsOn base (script.after after) := by
    intro base hbase script hscript
    obtain ⟨hopen, hsame⟩ := setting.result_get_rearranged h.openUnder hscript
    refine ⟨hopen, fun entry hentry => ?_⟩
    rw [hsame entry.1, hread entry hentry, hbase entry hentry]
  refine ⟨hfull.operations_eq, hfull.failures_eq, ?_, ?_, ?_, ?_, ?_⟩
  · exact fun entry hentry => h.isCounter entry.1 entry.2 (htotal entry hentry)
  · intro entry hentry
    exact (Counters.gives_get_of_stored (hread entry hentry) setting.default setting.strategy).1
  · intro key hkey
    rw [KeyMap.mem_keys_iff hfull.ordered, not_exists] at hkey
    have hnone : report.totals key = none := Option.eq_none_iff_forall_not_mem.mpr hkey
    rw [h.result_get key, hnone]
    rfl
  · intro base hbase script hscript
    obtain ⟨-, hreads⟩ := hbalanced base hbase script hscript
    exact setting.result_mismatches_nil hreads
  · intro base hbase script hscript entry hentry delta hdelta
    obtain ⟨hopen, hreads⟩ := hbalanced base hbase script hscript
    exact setting.exists_mismatch_of_add hopen hreads hfull.ordered hentry hdelta

theorem Succeeds.accounts {call : Call Event Layered (Except Error Report)}
    (h : setting.Succeeds call) :
    ∃ report after, call.Gives setting.engine (.ok report) after ∧
      Accounts setting.default setting.strategy setting.config setting.engine setting.held report
        after := by
  obtain ⟨report, after, hgives, hfull, hgained⟩ := h
  exact ⟨report, after, hgives, hgained.accounts hfull⟩

end Setting
end Workload

/-! ### Reachable engines -/

open Workload (run runInterleaved Accounts)

/-- On every reachable engine on which each counter of a workload holds eight bytes or nothing, the
workload succeeds, whatever else is stored: its workers may run one after the other, or, if they
add by merging, take turns in any order until all have finished.  Its report has all adds and no
failure.  Each key of the report was that of a counter and reads as what it held, or what the
strategy takes an absent counter for, and its total; all other keys read as before.  If all
counters of the report held the same, there are no mismatches on top of that, whatever is flushed,
compacted, closed and opened again; and one more add to one of them makes it the only mismatch. -/
theorem Layered.Reachable.workload_accounts {engine : Layered} (h : engine.Reachable)
    (default : UInt64) {strategy : Counters.Strategy}
    (hstrategy : strategy = .merge → engine.operator.isSome) {config : Workload.Config}
    (hworkers : 0 < config.workers) (hkeys : 0 < config.keySpace) (hdelta : 0 < config.maxDelta)
    (hcounters : ∀ index < config.keySpace, ∃ stored : Option Bytes,
      (Layered.engine.get (storageKey index)).result engine = .ok stored ∧
        ∀ bytes ∈ stored, bytes.length = Counter.size) :
    ∃ held : Tally,
      (∀ index < config.keySpace, (Layered.engine.get (storageKey index)).result engine =
        .ok ((held (storageKey index)).map encode)) ∧
      (∃ report after,
        (run (layered default strategy) config).Gives engine (.ok report) after ∧
        Accounts default strategy config engine held report after) ∧
      (strategy = .merge → ∀ schedule, config.Finishes schedule → ∃ report after,
        (runInterleaved (layered default strategy) config schedule).Gives engine (.ok report)
          after ∧
        Accounts default strategy config engine held report after) := by
  obtain ⟨operator, hopen⟩ := h.openUnder
  -- each key of the workload holds a counter or nothing, so one tally holds all of them
  have hreads : ∀ key, ∃ stored : Option UInt64, config.IsCounter key →
      (Layered.engine.get key).result engine = .ok (stored.map encode) := by
    intro key
    by_cases hkey : config.IsCounter key
    · obtain ⟨index, hindex, rfl⟩ := hkey
      obtain ⟨stored, hstored, hsize⟩ := hcounters index hindex
      refine ⟨stored.map Counter.count, fun _ => ?_⟩
      rw [hstored]
      cases stored with
      | none => rfl
      | some bytes =>
        have hbytes := Counter.encode_count_eq_iff.mpr (hsize bytes rfl)
        rw [Option.map_some, Option.map_some, hbytes]
    · exact ⟨none, fun hcounter => absurd hcounter hkey⟩
  choose held hheld using hreads
  -- merges need an operator, so without one every add is a read and a write
  have hmerges : operator = none → strategy = .readModifyWrite := by
    intro hnone
    cases strategy with
    | readModifyWrite => rfl
    | merge =>
      have hsome := hstrategy rfl
      rw [hopen.operator_eq, hnone] at hsome
      cases hsome
  let setting : Workload.Setting :=
    { default := default
      strategy := strategy
      config := config
      engine := engine
      operator := operator
      held := held
      openUnder := hopen
      strategy_eq := hmerges
      keySpace_pos := hkeys
      result_get := hheld }
  have hrefusal := setting.refusal?_eq_none hworkers hdelta
  refine ⟨held, ?_, (setting.succeeds_run hrefusal).accounts, ?_⟩
  · exact fun index hindex => hheld _ ⟨index, hindex, rfl⟩
  · exact fun _ schedule hfinishes => (setting.succeeds_runInterleaved hrefusal hfinishes).accounts

/-- Two workers merge into the only counter of the workload, which holds ten, beside a key with
something else.  Whether one runs after the other or they take turns, six adds are reported, the
other key stays as it is, and after a flush and a compaction there are no mismatches. -/
theorem Layered.Reachable.workload_accounts_two :
    let past : Script := [.put (storageKey 0) (encode 10), .put [1] [9]]
    let engine := past.after (Layered.opened [] none ⟨some .fullPartial, 2, true⟩)
    let config : Workload.Config := ⟨2, 3, 1, .random, 7, 5, true⟩
    let counters := layered 4 .merge
    let schedule := [1, 0, 1, 0, 0, 1]
    engine.Reachable ∧ engine.operator.isSome ∧ config.Finishes schedule ∧
      (∃ report after, (run counters config).Gives engine (.ok report) after ∧
        report.operations = 6 ∧ report.failures = 0 ∧
        (Layered.engine.get [1]).result after = .ok (some [9])) ∧
      ∃ report after, (runInterleaved counters config schedule).Gives engine (.ok report) after ∧
        report.operations = 6 ∧ report.failures = 0 ∧
        (report.mismatches counters 10).result (Script.after [.flush, .compact] after) =
          .ok [] := by
  intro past engine config counters schedule
  have hempty : Reachable (Layered.opened [] none ⟨some .fullPartial, 2, true⟩) :=
    .opened ⟨some .fullPartial, 2, true⟩ (result_ofStore (.inl rfl))
  have hreachable : engine.Reachable := hempty.after past
  have hsome : engine.operator.isSome := by decide
  have hfinishes : config.Finishes schedule := by decide
  have honly : ∀ index < config.keySpace, index = 0 := by
    intro index hindex
    have hlt : index.toNat < 1 := hindex
    exact UInt64.toNat_inj.mp (Nat.lt_one_iff.mp hlt)
  have hten : (Layered.engine.get (storageKey 0)).result engine = .ok (some (encode 10)) := by
    decide
  have hnine : (Layered.engine.get [1]).result engine = .ok (some [9]) := by decide
  have hcounters : ∀ index < config.keySpace, ∃ stored : Option Bytes,
      (Layered.engine.get (storageKey index)).result engine = .ok stored ∧
        ∀ bytes ∈ stored, bytes.length = Counter.size := by
    intro index hindex
    rw [honly index hindex]
    refine ⟨_, hten, ?_⟩
    intro bytes hbytes
    rw [← Option.mem_some.mp hbytes]
    exact Counter.length_encode 10
  obtain ⟨held, hheld, ⟨report, after, hgives, haccounts⟩, hinterleaved⟩ :=
    Layered.Reachable.workload_accounts hreachable 4 (fun _ => hsome)
      (by decide : 0 < config.workers) (by decide) (by decide) hcounters
  obtain ⟨other, last, hgives', haccounts'⟩ := hinterleaved rfl schedule hfinishes
  have hzero : held (storageKey 0) = some 10 := by
    have hread := Except.ok.inj ((hheld 0 (by decide)).symm.trans hten)
    obtain ⟨value, hvalue, hencode⟩ := Option.map_eq_some_iff.mp hread
    rw [hvalue, Counter.encode_injective hencode]
  refine ⟨hreachable, hsome, hfinishes, ⟨report, after, hgives, ?_, ?_, ?_⟩,
    other, last, hgives', ?_, ?_, ?_⟩
  · exact haccounts.operations_eq
  · exact haccounts.failures_eq
  · -- the other key is none that the workload counts
    rw [haccounts.untouched [1], hnine]
    intro hmem
    obtain ⟨entry, hentry, hkey⟩ := List.mem_map.mp hmem
    obtain ⟨index, hindex, hcounter⟩ := haccounts.isCounter entry hentry
    rw [hkey, honly index hindex] at hcounter
    exact absurd hcounter (by decide)
  · exact haccounts'.operations_eq
  · exact haccounts'.failures_eq
  · -- both reports account for what was held before, whatever was reorganised since
    refine haccounts'.mismatches_nil 10 ?_ _ ?_
    · intro entry hentry
      obtain ⟨index, hindex, hcounter⟩ := haccounts'.isCounter entry hentry
      rw [hcounter, honly index hindex, hzero]
      rfl
    · exact List.forall_mem_cons.mpr ⟨trivial, List.forall_mem_cons.mpr ⟨trivial, nofun⟩⟩

end LazyTally
