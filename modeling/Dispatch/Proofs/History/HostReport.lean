import Dispatch.Proofs.History.Replay
import Dispatch.Proofs.History.Standing
import Dispatch.Proofs.Numbers
import Mathlib.Data.List.Nodup

/-!
# What a report of an executor does

An executor reports the jobs that it hosts.  Some of the runs bound to it are dropped then, and the
jobs on its list are brought in line one after the other, each of which may take up the room or the
place under the job cap that a later one would have had.  Whatever becomes of each, its run is in
line afterwards: it stays on the executor, or it is on its way off an executor.  What is in line is
not touched again, so the report has its effect once and for all.

* `Scheduler.OnlyRuns` : how little a report changes besides runs;
* `Scheduler.hosting_inLine`, `Scheduler.hosting_keeps_inLine`, `Scheduler.hosting_of_inLine` :
  listed jobs are brought in line, what is in line stays as it is, and a list of such jobs changes
  nothing;
* `Scheduler.ReportTaken` : the effect of a report;
* `host_report_effect` : **a report is refused only when its executor is not registered, and has its
  effect otherwise**, and the same report changes nothing when it is taken in again.
-/

namespace Dispatch

variable {κ : Type}

/-- The run stays on the executor, or is on its way off some executor. -/
def Run.InLine (run : Run κ) (executor : String) : Prop :=
  run.stopping = true ∨ run.executor = some executor

namespace Scheduler

/-- Only runs change, and none comes or goes, or gets another definition of its job. -/
structure OnlyRuns (s s' : Scheduler κ) : Prop where
  config : s'.config = s.config
  jobs : s'.registry.jobs = s.registry.jobs
  executors : s'.registry.executors = s.registry.executors
  nextOrdinal : s'.registry.nextOrdinal = s.registry.nextOrdinal
  definition : ∀ id, (s'.registry.runs.get? id).map (·.job) = (s.registry.runs.get? id).map (·.job)

section OnlyRuns

variable {s s' s'' : Scheduler κ} {id job : String} {run run' : Run κ} {now : Instant}

theorem OnlyRuns.refl (s : Scheduler κ) : s.OnlyRuns s := ⟨rfl, rfl, rfl, rfl, fun _ => rfl⟩

theorem OnlyRuns.trans (h : s.OnlyRuns s') (h' : s'.OnlyRuns s'') : s.OnlyRuns s'' :=
  ⟨h'.config.trans h.config, h'.jobs.trans h.jobs, h'.executors.trans h.executors,
    h'.nextOrdinal.trans h.nextOrdinal, fun id => (h'.definition id).trans (h.definition id)⟩

/-- The run of one job is replaced, under the same definition. -/
theorem OnlyRuns.put (hrun : s.registry.runs.get? job = some run) (hjob : run'.job = run.job)
    (phase : Phase) (now : Instant) : s.OnlyRuns (s.put job run' phase now) := by
  refine ⟨rfl, rfl, rfl, rfl, fun id => ?_⟩
  rw [put_registry, Registry.get?_modifyRun hrun]
  split
  · rename_i hid
    simp [hid, hrun, hjob]
  · rfl

theorem OnlyRuns.putStop (hrun : s.registry.runs.get? job = some run) (hjob : run'.job = run.job)
    (now : Instant) : s.OnlyRuns (s.putStop job run' now) :=
  (OnlyRuns.put hrun hjob .ending now).trans ⟨rfl, rfl, rfl, rfl, fun _ => rfl⟩

theorem OnlyRuns.eq_none_iff (h : s.OnlyRuns s') :
    s'.registry.runs.get? id = none ↔ s.registry.runs.get? id = none := by
  rw [← Option.map_eq_none_iff (f := (·.job)), h.definition, Option.map_eq_none_iff]

theorem OnlyRuns.job_id (h : s.OnlyRuns s')
    (hkey : ∀ {id : String} {run : Run κ}, s.registry.runs.get? id = some run → run.job.id = id)
    (hrun : s'.registry.runs.get? id = some run) : run.job.id = id := by
  have hdefinition := h.definition id
  rw [hrun, Option.map_some, eq_comm, Option.map_eq_some_iff] at hdefinition
  obtain ⟨old, hold, hjob⟩ := hdefinition
  rw [← hjob, hkey hold]

end OnlyRuns

/-- Dropping runs says nothing and changes nothing else. -/
theorem unlisting_onlyRuns (s : Scheduler κ) (executor : String) (listed : List String)
    (now : Instant) : s.OnlyRuns (s.unlisting executor listed now) ∧
      (s.unlisting executor listed now).outbox = s.outbox := by
  unfold unlisting
  induction s.missingFrom executor listed generalizing s with
  | nil => exact ⟨.refl s, rfl⟩
  | cons job ids ih =>
    obtain ⟨honly, houtbox⟩ := ih (s.forget job now)
    have hone : s.OnlyRuns (s.forget job now) := by
      refine ⟨rfl, rfl, rfl, rfl, fun id => ?_⟩
      rw [get?_forget]
      split
      · simp [Run.release, Function.comp_def]
      · rfl
    exact ⟨hone.trans honly, houtbox⟩

/-! ### The jobs that are listed -/

variable [Quantity κ] {s : Scheduler κ} {executor job id : String} {revision : UInt64}
  {run : Run κ} {now : Instant} {jobs : List String}

theorem host_onlyRuns (s : Scheduler κ) (executor : String) (revision : UInt64) (job : String)
    (now : Instant) : s.OnlyRuns (s.host executor revision job now).1 := by
  have hhosts := host_hosts s executor revision job now
  generalize (s.host executor revision job now).1 = s' at hhosts ⊢
  cases hhosts with
  | unknown => exact ⟨rfl, rfl, rfl, rfl, fun _ => rfl⟩
  | nothing => exact .refl s
  | elsewhere hrun => exact .putStop hrun (by rfl) now
  | adopt hrun => exact .put hrun (by rfl) .running now
  | expel hrun => exact .putStop hrun (by rfl) now

/-- A listed job is in line afterwards. -/
theorem host_inLine (hrun : s.registry.runs.get? job = some run) (executor : String)
    (revision : UInt64) (now : Instant) :
    ∃ run', (s.host executor revision job now).1.registry.runs.get? job = some run' ∧
      run'.InLine executor := by
  have hhosts := host_hosts s executor revision job now
  generalize (s.host executor revision job now).1 = s' at hhosts ⊢
  cases hhosts with
  | unknown hnone => cases hnone.symm.trans hrun
  | nothing hrun hsettled => exact ⟨_, hrun, hsettled⟩
  | elsewhere hrun =>
    exact ⟨_, by rw [putStop_registry, Registry.get?_modifyRun hrun, if_pos rfl], .inl rfl⟩
  | adopt hrun =>
    exact ⟨_, by rw [put_registry, Registry.get?_modifyRun hrun, if_pos rfl], .inr rfl⟩
  | expel hrun =>
    exact ⟨_, by rw [putStop_registry, Registry.get?_modifyRun hrun, if_pos rfl], .inl rfl⟩

/-- Nothing is done about a listed job that is in line. -/
theorem host_of_inLine (hrun : s.registry.runs.get? job = some run) (h : run.InLine executor) :
    (s.host executor revision job now).1 = s := by
  have hsettled : (run.stopping || run.isBoundTo executor) = true := by
    simpa [Run.isBoundTo, Run.InLine] using h
  simp only [host, hrun, hsettled, if_true]

/-- A run that is in line stays as it is, whichever job is listed. -/
theorem host_keeps_inLine (hrun : s.registry.runs.get? id = some run) (h : run.InLine executor) :
    (s.host executor revision job now).1.registry.runs.get? id = some run := by
  by_cases hid : id = job
  · subst hid
    rw [host_of_inLine hrun h, hrun]
  · rw [(host_other hid s executor revision now).1, hrun]

/-- The calls issued are stop calls for the listed job. -/
theorem host_issued (hkey : ∀ {id : String} {run : Run κ},
      s.registry.runs.get? id = some run → run.job.id = id) (executor : String)
    (revision : UInt64) (job : String) (now : Instant) :
    ∃ calls, (s.host executor revision job now).1.issued = s.issued ++ calls ∧
      ∀ call ∈ calls, call.kind = .stop ∧ call.run.job.id = job := by
  have hstops : ∀ {run run' : Run κ}, s.registry.runs.get? job = some run →
      run'.job = run.job → ∃ calls, (s.putStop job run' now).issued = s.issued ++ calls ∧
        ∀ call ∈ calls, call.kind = .stop ∧ call.run.job.id = job := by
    intro run run' hrun hjob
    obtain ⟨call, hissued, hkind, hcall⟩ := putStop_issued s run' job now
    refine ⟨[call], hissued, fun c hc => ?_⟩
    obtain rfl := List.mem_singleton.1 hc
    exact ⟨hkind, by rw [hcall, hjob, hkey hrun]⟩
  have hhosts := host_hosts s executor revision job now
  generalize (s.host executor revision job now).1 = s' at hhosts ⊢
  cases hhosts with
  | unknown => exact ⟨[], by simp, by simp⟩
  | nothing => exact ⟨[], by simp, by simp⟩
  | elsewhere hrun => exact hstops hrun rfl
  | adopt => exact ⟨[], by simp, by simp⟩
  | expel hrun => exact hstops hrun rfl

/-- A listed job is reported as not known when it is not registered. -/
theorem host_unknown (s : Scheduler κ) (executor : String) (revision : UInt64) (job id : String)
    (now : Instant) :
    ((s.host executor revision job now).1.toldOf id).count .unknownJob =
      (s.toldOf id).count .unknownJob +
        if job = id ∧ s.registry.runs.get? id = none then 1 else 0 := by
  have hhosts := host_hosts s executor revision job now
  generalize (s.host executor revision job now).1 = s' at hhosts ⊢
  have hknown : ∀ {run : Run κ}, s.registry.runs.get? job = some run →
      ¬ (job = id ∧ s.registry.runs.get? id = none) := by
    rintro run hrun ⟨rfl, hnone⟩
    cases hnone.symm.trans hrun
  have hstops : ∀ run : Run κ, ((s.putStop job run now).toldOf id).count .unknownJob =
      (s.toldOf id).count .unknownJob := by
    intro run
    rw [toldOf_putStop]
    split <;> simp
  cases hhosts with
  | unknown hnone =>
    by_cases hid : job = id
    · subst hid
      simp [stranger, hnone]
    · simp [stranger, hid]
  | nothing hrun => rw [if_neg (hknown hrun), Nat.add_zero]
  | elsewhere hrun => rw [if_neg (hknown hrun), Nat.add_zero, hstops]
  | adopt hrun => rw [if_neg (hknown hrun), Nat.add_zero, toldOf_put]
  | expel hrun => rw [if_neg (hknown hrun), Nat.add_zero, hstops]

theorem hosting_cons (s : Scheduler κ) (executor : String) (revision : UInt64) (now : Instant)
    (job : String) (jobs : List String) :
    s.hosting executor revision now (job :: jobs) =
      (s.host executor revision job now).1.hosting executor revision now jobs := rfl

theorem hosting_onlyRuns (s : Scheduler κ) (executor : String) (revision : UInt64) (now : Instant)
    (jobs : List String) : s.OnlyRuns (s.hosting executor revision now jobs) := by
  induction jobs generalizing s with
  | nil => exact .refl s
  | cons job jobs ih => exact (host_onlyRuns s executor revision job now).trans (ih _)

/-- A job that is not listed is left alone. -/
theorem hosting_other (hout : id ∉ jobs) :
    (s.hosting executor revision now jobs).registry.runs.get? id = s.registry.runs.get? id := by
  induction jobs generalizing s with
  | nil => rfl
  | cons job jobs ih =>
    obtain ⟨hne, hout⟩ := not_or.1 (mt List.mem_cons.2 hout)
    rw [hosting_cons, ih hout, (host_other hne s executor revision now).1]

/-- **A run that is in line stays as it is.** -/
theorem hosting_keeps_inLine (hrun : s.registry.runs.get? id = some run)
    (h : run.InLine executor) :
    (s.hosting executor revision now jobs).registry.runs.get? id = some run := by
  induction jobs generalizing s with
  | nil => exact hrun
  | cons job jobs ih => exact ih (host_keeps_inLine hrun h)

/-- **Every listed job that is registered is in line afterwards.** -/
theorem hosting_inLine (hin : id ∈ jobs) (hrun : s.registry.runs.get? id = some run)
    (executor : String) (revision : UInt64) (now : Instant) :
    ∃ run', (s.hosting executor revision now jobs).registry.runs.get? id = some run' ∧
      run'.InLine executor := by
  induction jobs generalizing s run with
  | nil => simp at hin
  | cons job jobs ih =>
    by_cases hid : id = job
    · subst hid
      obtain ⟨run', hrun', hline⟩ := host_inLine hrun executor revision now
      rw [hosting_cons]
      exact ⟨run', hosting_keeps_inLine hrun' hline, hline⟩
    · have hother := (host_other hid s executor revision now).1
      exact ih ((List.mem_cons.1 hin).resolve_left hid) (hother.trans hrun)

/-- The calls issued are stop calls for listed jobs. -/
theorem hosting_issued (hkey : ∀ {id : String} {run : Run κ},
      s.registry.runs.get? id = some run → run.job.id = id) (executor : String)
    (revision : UInt64) (now : Instant) (jobs : List String) :
    ∃ calls, (s.hosting executor revision now jobs).issued = s.issued ++ calls ∧
      ∀ call ∈ calls, call.kind = .stop ∧ call.run.job.id ∈ jobs := by
  induction jobs generalizing s with
  | nil => exact ⟨[], (List.append_nil _).symm, by simp⟩
  | cons job jobs ih =>
    have honly := host_onlyRuns s executor revision job now
    obtain ⟨first, hfirst, hone⟩ := host_issued hkey executor revision job now
    obtain ⟨rest, hrest, hall⟩ := ih (honly.job_id hkey)
    refine ⟨first ++ rest, by rw [hosting_cons, hrest, hfirst, List.append_assoc], ?_⟩
    intro call hcall
    rcases List.mem_append.1 hcall with hcall | hcall
    · obtain ⟨hkind, rfl⟩ := hone call hcall
      exact ⟨hkind, List.mem_cons_self⟩
    · exact (hall call hcall).imp_right (List.mem_cons_of_mem job)

/-- A job that is not registered is reported as often as it is listed. -/
theorem hosting_unknown (s : Scheduler κ) (executor : String) (revision : UInt64) (id : String)
    (now : Instant) (jobs : List String) :
    ((s.hosting executor revision now jobs).toldOf id).count .unknownJob =
      (s.toldOf id).count .unknownJob +
        if s.registry.runs.get? id = none then jobs.count id else 0 := by
  induction jobs generalizing s with
  | nil => simp [hosting]
  | cons job jobs ih =>
    rw [hosting_cons, ih, host_unknown, List.count_cons]
    simp only [(host_onlyRuns s executor revision job now).eq_none_iff, beq_iff_eq]
    by_cases hnone : s.registry.runs.get? id = none
    · simp only [hnone, and_true, if_true]
      omega
    · simp [hnone]

/-- **Where all listed jobs are in line, nothing changes**, and no call is issued. -/
theorem hosting_of_inLine (h : ∀ id ∈ jobs, ∀ run, s.registry.runs.get? id = some run →
    run.InLine executor) : (s.hosting executor revision now jobs).registry = s.registry ∧
      (s.hosting executor revision now jobs).issued = s.issued := by
  have hone : ∀ s' : Scheduler κ, s'.registry = s.registry → s'.issued = s.issued →
      (s'.hosting executor revision now jobs).registry = s.registry ∧
        (s'.hosting executor revision now jobs).issued = s.issued := by
    induction jobs with
    | nil => exact fun s' hregistry hissued => ⟨hregistry, hissued⟩
    | cons job jobs ih =>
      intro s' hregistry hissued
      have hrest : ∀ id ∈ jobs, ∀ run, s.registry.runs.get? id = some run → run.InLine executor :=
        fun id hid => h id (List.mem_cons_of_mem job hid)
      rw [hosting_cons]
      cases hrun : s'.registry.runs.get? job with
      | none =>
        have hreport : (s'.host executor revision job now).1 =
            s'.report .unknownJob (stranger job executor) := by simp only [host, hrun]
        rw [hreport]
        exact ih hrest _ hregistry (by rw [report_issued, hissued])
      | some run =>
        rw [host_of_inLine hrun (h job List.mem_cons_self run (hregistry ▸ hrun))]
        exact ih hrest s' hregistry hissued
  exact hone s rfl rfl

end Scheduler

theorem firstOccurrences_nodup (ids : List String) : (firstOccurrences ids).Nodup := by
  suffices ∀ (ids seen : List String), seen.Nodup →
      (ids.foldl (fun seen id => if seen.contains id then seen else seen ++ [id]) seen).Nodup from
    this ids [] List.nodup_nil
  intro ids
  induction ids with
  | nil => exact fun _ hseen => hseen
  | cons id ids ih =>
    intro seen hseen
    rw [List.foldl_cons]
    split
    · exact ih seen hseen
    · rename_i hnew
      refine ih _ (List.nodup_append.2 ⟨hseen, List.nodup_singleton id, ?_⟩)
      simpa using fun x hx => fun hsame => hnew (by simpa [← hsame] using hx)

/-! ### The report as a whole -/

/-- An executor has reported the jobs that it hosts. -/
structure Scheduler.ReportTaken (s s' : Scheduler κ) (executor : String) (jobs : List String) :
    Prop where
  /-- A run that stays on the executor is of a listed job. -/
  listed : ∀ id run, s'.registry.runs.get? id = some run → run.stopping = false →
    run.executor = some executor → id ∈ jobs
  /-- The other runs that were to stay there are pending. -/
  dropped : ∀ id run, s.registry.runs.get? id = some run → run.stopping = false →
    run.executor = some executor → id ∉ jobs →
      ∃ run', s'.registry.runs.get? id = some run' ∧ run'.isPending = true
  /-- Calls are issued to stop listed jobs only. -/
  calls : ∃ calls, s'.issued = s.issued ++ calls ∧
    ∀ call ∈ calls, call.kind = .stop ∧ call.run.job.id ∈ jobs
  /-- The run of a listed job is being stopped, or stays on the executor. -/
  inLine : ∀ id ∈ jobs, ∀ run, s.registry.runs.get? id = some run →
    ∃ run', s'.registry.runs.get? id = some run' ∧
      (run'.stopping = true ∨ run'.executor = some executor ∧ run'.stopping = false)
  stopping : ∀ id run, s.registry.runs.get? id = some run → run.stopping = true →
    s'.registry.runs.get? id = some run
  others : ∀ id run, s.registry.runs.get? id = some run → id ∉ jobs →
    run.executor ≠ some executor → s'.registry.runs.get? id = some run
  onlyRuns : s.OnlyRuns s'
  /-- Each listed job that is not registered is reported once as not known, and no other. -/
  unknown : ∀ id, (s'.toldOf id).count .unknownJob = (s.toldOf id).count .unknownJob +
    if id ∈ jobs ∧ s.registry.runs.get? id = none then 1 else 0

namespace Scheduler

variable [Quantity κ] {s : Scheduler κ}

/-- What a report of a registered executor does. -/
theorem jobsOnExecutor_taken (hsound : s.registry.Sound) {executor : String} {target : Executor κ}
    (htarget : s.registry.executor? executor = some target) (jobs : List String) (now : Instant) :
    s.ReportTaken (s.jobsOnExecutor executor jobs now).1 executor jobs := by
  rw [jobsOnExecutor_eq jobs htarget]
  obtain ⟨honly, hsaid⟩ := unlisting_onlyRuns s executor (firstOccurrences jobs) now
  have hget := get?_unlisting hsound.run_key executor (firstOccurrences jobs) now
  simp only [mem_firstOccurrences] at hget
  generalize s.unlisting executor (firstOccurrences jobs) now = s₁ at honly hsaid hget ⊢
  have hother : ∀ {id}, id ∉ jobs →
      (s₁.hosting executor target.revision now (firstOccurrences jobs)).registry.runs.get? id =
        s₁.registry.runs.get? id :=
    fun hout => hosting_other (mt mem_firstOccurrences.1 hout)
  have hsame : ∀ {id run}, s.registry.runs.get? id = some run →
      ¬ (run.stopping = false ∧ run.executor = some executor ∧ id ∉ jobs) →
        s₁.registry.runs.get? id = some run := by
    intro id run hrun hkept
    rw [hget, hrun, Option.map_some, if_neg hkept]
  constructor
  case listed =>
    intro id run' hrun' hst hexec
    by_contra hout
    rw [hother hout, hget, Option.map_eq_some_iff] at hrun'
    obtain ⟨run, hrun, rfl⟩ := hrun'
    -- a dropped run is bound to no executor
    split at hst <;> rename_i hkept
    · simp [hkept, Run.release] at hexec
    · simp only [hkept, if_false] at hexec
      exact hkept ⟨hst, hexec, hout⟩
  case dropped =>
    intro id run hrun hst hexec hout
    rw [hother hout, hget, hrun, Option.map_some, if_pos ⟨hst, hexec, hout⟩]
    exact ⟨_, rfl, by simp [Run.isPending, Run.release, hst]⟩
  case calls =>
    obtain ⟨calls, hissued, hall⟩ := hosting_issued (honly.job_id hsound.run_key)
      executor target.revision now (firstOccurrences jobs)
    simp only [mem_firstOccurrences] at hall
    exact ⟨calls, by rw [hissued, issued, issued, hsaid], hall⟩
  case inLine =>
    intro id hin run hrun
    obtain ⟨run', hrun', hline⟩ := hosting_inLine (mem_firstOccurrences.2 hin)
      (hsame hrun fun hkept => hkept.2.2 hin) executor target.revision now
    refine ⟨run', hrun', ?_⟩
    cases hst : run'.stopping with
    | true => exact .inl rfl
    | false => exact .inr ⟨hline.resolve_left (by simp [hst]), rfl⟩
  case stopping =>
    intro id run hrun hst
    exact hosting_keeps_inLine (hsame hrun (by simp [hst])) (.inl hst)
  case others =>
    intro id run hrun hout hexec
    rw [hother hout]
    exact hsame hrun fun hkept => hexec hkept.2.1
  case onlyRuns => exact honly.trans (hosting_onlyRuns _ _ _ _ _)
  case unknown =>
    intro id
    rw [hosting_unknown, toldOf, toldOf, hsaid]
    simp only [honly.eq_none_iff]
    by_cases hin : id ∈ jobs
    · rw [List.count_eq_one_of_mem (firstOccurrences_nodup jobs) (mem_firstOccurrences.2 hin)]
      simp [hin]
    · rw [List.count_eq_zero_of_not_mem (mt mem_firstOccurrences.1 hin)]
      simp [hin]

/-- A report that has been taken in changes nothing when it is taken in again. -/
theorem ReportTaken.again {s' : Scheduler κ} {executor : String} {target : Executor κ}
    {jobs : List String} (h : s.ReportTaken s' executor jobs) (hsound : s.registry.Sound)
    (htarget : s.registry.executor? executor = some target) (now : Instant) :
    ∃ s'', s'.jobsOnExecutor executor jobs now = (s'', .ok ()) ∧ s''.registry = s'.registry ∧
      s''.issued = s'.issued := by
  have hkey : ∀ {id : String} {run : Run κ}, s'.registry.runs.get? id = some run →
      run.job.id = id := h.onlyRuns.job_id hsound.run_key
  have htarget' : s'.registry.executor? executor = some target := by
    rw [Registry.executor?, h.onlyRuns.executors]
    exact htarget
  have hnone : s'.missingFrom executor (firstOccurrences jobs) = [] := by
    refine List.eq_nil_iff_forall_not_mem.2 fun id hid => ?_
    obtain ⟨run, hrun, hst, hexec, hout⟩ := (mem_missingFrom_iff hkey).1 hid
    exact hout (mem_firstOccurrences.2 (h.listed id run hrun hst hexec))
  rw [jobsOnExecutor_eq jobs htarget', unlisting, hnone, List.foldl_nil]
  refine ⟨_, rfl, hosting_of_inLine fun id hid run' hrun' => ?_⟩
  have hknown : s.registry.runs.get? id ≠ none := fun hnone => by
    rw [h.onlyRuns.eq_none_iff.2 hnone] at hrun'
    cases hrun'
  obtain ⟨run, hrun⟩ := Option.ne_none_iff_exists'.1 hknown
  obtain ⟨run'', hrun'', hline⟩ := h.inLine id (mem_firstOccurrences.1 hid) run hrun
  obtain rfl : run'' = run' := Option.some.inj (hrun''.symm.trans hrun')
  exact hline.imp_right And.left

end Scheduler

/-- **What a report of an executor does**, in every session and at any time.  It is refused exactly
when the executor is not registered, and changes nothing then.  Otherwise it is taken in with all
its effect, and the same report changes no registry and issues no call when it is taken in again. -/
theorem host_report_effect [Quantity κ] {config : Config κ} {session : Session κ}
    (h : Reachable config session) (executor : String) (jobs : List String) (now : Instant) :
    ((∃ e, (session.scheduler.jobsOnExecutor executor jobs now).2 = .error e) ↔
      ∀ e ∈ session.scheduler.registry.executors, e.id ≠ executor) ∧
    ((∀ e ∈ session.scheduler.registry.executors, e.id ≠ executor) →
      session.scheduler.jobsOnExecutor executor jobs now =
        (session.scheduler, .error (.executorNotFound executor))) ∧
    ((∃ e ∈ session.scheduler.registry.executors, e.id = executor) →
      ∃ s', session.scheduler.jobsOnExecutor executor jobs now = (s', .ok ()) ∧
        session.scheduler.ReportTaken s' executor jobs ∧
        ∃ s'', s'.jobsOnExecutor executor jobs now = (s'', .ok ()) ∧
          s''.registry = s'.registry ∧ s''.issued = s'.issued) := by
  rw [← Registry.executor?_eq_none_iff]
  cases htarget : session.scheduler.registry.executor? executor with
  | none =>
    have hrefused : session.scheduler.jobsOnExecutor executor jobs now =
        (session.scheduler, .error (.executorNotFound executor)) := by
      simp only [Scheduler.jobsOnExecutor, htarget]
    refine ⟨by simp [hrefused], fun _ => hrefused, ?_⟩
    rintro ⟨e, he, hid⟩
    exact absurd hid (Registry.executor?_eq_none_iff.1 htarget e he)
  | some target =>
    have htaken := Scheduler.jobsOnExecutor_taken h.sound htarget jobs now
    have hagain := htaken.again h.sound htarget now
    rw [Scheduler.jobsOnExecutor_eq jobs htarget] at htaken hagain ⊢
    exact ⟨by simp, by simp, fun _ => ⟨_, rfl, htaken, hagain⟩⟩

/-- On `A` one job is being stopped and one is starting, another one is starting on `B`, and two are
pending, of which one is too dear. -/
def fiveJobs : Session ℚ :=
  (Session.play (fun _ _ => true) { scheduler := { config := ownerConfirms }, now := 0 }
    [(0, .request (.addExecutor { id := "A", capacity := 10 })),
      (0, .request (.addExecutor { id := "B", capacity := 10 })),
      (0, .request (.addJob { id := "leaving", cost := 1 })),
      (0, .request (.stopJob "leaving")),
      (0, .request (.addJob { id := "missing", cost := 1 })),
      (0, .request (.addJob { id := "elsewhere", cost := 1 })),
      (0, .request (.addJob { id := "welcome", cost := 1 })),
      (0, .request (.addJob { id := "dear", cost := 100 }))]).get (by decide +kernel)

/-- What `A` says it hosts.  A job that is not known is listed twice. -/
def listedOnA : List String := ["elsewhere", "stranger", "leaving", "welcome", "dear", "stranger"]

/-- Each case comes up in one report. -/
theorem host_report_effect_fiveJobs :
    ∃ s', fiveJobs.scheduler.jobsOnExecutor "A" listedOnA 5 = (s', .ok ()) ∧
      s'.registry.allRuns.map (fun run => (run.job.id, run.executor, run.state)) =
        [("leaving", some "A", .stopping), ("missing", none, .pending),
          ("elsewhere", some "B", .stopping), ("welcome", some "A", .running),
          ("dear", some "A", .stopping)] ∧
      (s'.toldOf "stranger").count .unknownJob = 1 ∧
      ∃ s'', s'.jobsOnExecutor "A" listedOnA 5 = (s'', .ok ()) ∧
        s''.registry = s'.registry ∧ s''.issued = s'.issued := by
  have hreach : Reachable ownerConfirms fiveJobs :=
    Session.play_reachedBy (fun _ _ _ => trivial) (.start 0 (by decide +kernel))
      (Option.some_get _).symm
  obtain ⟨-, -, htaken⟩ := host_report_effect hreach "A" listedOnA 5
  obtain ⟨s', hreport, htaken, hagain⟩ := htaken (by decide +kernel)
  have hnone : fiveJobs.scheduler.registry.runs.get? "stranger" = none :=
    Option.isNone_iff_eq_none.1 (by decide +kernel)
  have htold : fiveJobs.scheduler.toldOf "stranger" = [] := by
    simp [Scheduler.toldOf, situationsOf, hreach.outbox_eq_nil]
  refine ⟨s', hreport, ?_, ?_, hagain⟩
  · obtain rfl : (fiveJobs.scheduler.jobsOnExecutor "A" listedOnA 5).1 = s' :=
      congrArg Prod.fst hreport
    decide +kernel
  · rw [htaken.unknown, htold, hnone]
    rfl

end Dispatch
