import Dispatch.Proofs.History.Replay
import Dispatch.Proofs.History.Sound
import Dispatch.Proofs.Numbers

/-!
# The definition that a pending run carries

Placement checks the cost that a pending run carries, and the start that follows commits the cost
that is registered for its job.  The two agree as long as every pending run carries the registered
definition (`Registry.PendingCurrent`).

A run becomes pending when its job is added, when a stop is over, when its start fails, or when a
report of its executor leaves it out.  The first two give it the registered definition; the last
two (`Advance.Drops`) leave it the definition it was placed with, and that is the only way in which
the invariant can be lost:

* `Does.pendingCurrent_iff` : what each deed makes of it;
* `pendingCurrent_iff` : **pending runs are current exactly as long as no run is dropped after its
  job was redefined**, and then starts and adoptions commit the cost that was checked;
* `pendingCurrent_fails` : a history in which one is.
-/

namespace Dispatch

variable {κ : Type} {r r' : Registry κ} {id : String} {run : Run κ}

namespace Registry

/-- Every pending run carries the definition registered for its job. -/
def PendingCurrent (r : Registry κ) : Prop :=
  ∀ id run, r.runs.get? id = some run → run.isPending = true → r.jobs.get? id = some run.job

/-- The run of a job carries another definition than the registered one. -/
def Outdated (r : Registry κ) (id : String) : Prop :=
  ∃ run, r.runs.get? id = some run ∧ r.jobs.get? id ≠ some run.job

/-- A pending run carries another definition than the registered one. -/
def Stale (r : Registry κ) (id : String) : Prop :=
  ∃ run, r.runs.get? id = some run ∧ run.isPending = true ∧ r.jobs.get? id ≠ some run.job

theorem Stale.not_pendingCurrent (h : r.Stale id) : ¬ r.PendingCurrent := by
  obtain ⟨run, hrun, hpending, hne⟩ := h
  exact fun hcurrent => hne (hcurrent id run hrun hpending)

theorem Stale.congr (h : r.Stale id) (hruns : r'.runs.get? id = r.runs.get? id)
    (hjobs : r'.jobs = r.jobs) : r'.Stale id := by
  obtain ⟨run, hrun, hpending, hne⟩ := h
  exact ⟨run, by rw [hruns]; exact hrun, hpending, by rw [hjobs]; exact hne⟩

theorem Outdated.stale (h : r.Outdated id) {f : Run κ → Run κ}
    (hjob : ∀ run, r.runs.get? id = some run → (f run).job = run.job)
    (hpending : ∀ run, r.runs.get? id = some run → (f run).isPending = true) :
    (r.modifyRun id f).Stale id := by
  obtain ⟨run, hrun, hne⟩ := h
  refine ⟨f run, by rw [get?_modifyRun hrun, if_pos rfl], hpending run hrun, ?_⟩
  rw [hjob run hrun]
  exact hne

namespace PendingCurrent

theorem empty : (∅ : Registry κ).PendingCurrent := fun _ _ h => by cases h

/-- Changing one run is all right exactly when it is current or not pending afterwards. -/
theorem modifyRun_iff (h : r.PendingCurrent) (hrun : r.runs.get? id = some run)
    (f : Run κ → Run κ) :
    (r.modifyRun id f).PendingCurrent ↔
      ((f run).isPending = true → r.jobs.get? id = some (f run).job) := by
  constructor
  · intro h' hpending
    exact h' id (f run) (by rw [get?_modifyRun hrun, if_pos rfl]) hpending
  · intro hcurrent id' run' hrun' hpending
    rw [get?_modifyRun hrun] at hrun'
    split at hrun'
    · rename_i hid
      obtain rfl := Option.some.inj hrun'
      rw [hid]
      exact hcurrent hpending
    · exact h id' run' hrun' hpending

theorem removeRun (h : r.PendingCurrent) : (r.removeRun id).PendingCurrent := by
  intro id' run' hrun' hpending
  simp only [Registry.removeRun, Table.get?_erase] at hrun' ⊢
  split at hrun'
  · cases hrun'
  · rename_i hid
    rw [if_neg hid]
    exact h id' run' hrun' hpending

variable [Quantity κ]

theorem addJob (h : r.PendingCurrent) (hsound : r.Sound) {job : Job κ}
    (hadd : r.addJob job = .ok r') : r'.PendingCurrent := by
  obtain ⟨-, hnew, rfl⟩ := of_addJob hadd
  intro id' run' hrun' hpending
  simp only [Table.get?_addNew] at hrun' ⊢
  by_cases hid : id' = job.id
  · subst hid
    have hnorun := hsound.get?_runs_eq_none hnew
    simp only [hnew, hnorun, if_pos, Option.none_or, Option.some.injEq] at hrun' ⊢
    rw [← hrun']
  · simp only [if_neg hid, Option.or_none] at hrun' ⊢
    exact h id' run' hrun' hpending

theorem changeJob (h : r.PendingCurrent) {job : Job κ} (hchange : r.changeJob job = .ok r') :
    r'.PendingCurrent := by
  obtain ⟨old, -, hold, rfl⟩ := of_changeJob hchange
  intro id' run' hrun' hpending
  simp only [Table.get?_modify] at hrun' ⊢
  by_cases hid : id' = job.id
  · subst hid
    simp only [if_pos, hold, Option.map_some, Option.map_eq_some_iff] at hrun' ⊢
    obtain ⟨run, -, rfl⟩ := hrun'
    -- a pending run has just been given the new definition
    by_cases hp : run.isPending = true
    · simp [hp]
    · simp [hp] at hpending
  · simp only [if_neg hid] at hrun' ⊢
    exact h id' run' hrun' hpending

end PendingCurrent

end Registry

/-- The deed makes an outdated run pending. -/
def Deed.LosesUpdate (s : Scheduler κ) : Deed κ → Prop
  | .release job | .forget job => s.registry.Outdated job
  | _ => False

open Scheduler

variable [Quantity κ] {now : Instant} {s s' : Scheduler κ} {d : Deed κ}

theorem Does.pendingCurrent (hdoes : Does now s d s') (hsound : s.registry.Sound)
    (h : s.registry.PendingCurrent) (hkeeps : ¬ d.LosesUpdate s) :
    s'.registry.PendingCurrent := by
  -- the registered definition, for the two deeds that drop a run
  have hcurrent : ∀ {job : String} {run : Run κ}, s.registry.runs.get? job = some run →
      ¬ s.registry.Outdated job → s.registry.jobs.get? job = some run.job := by
    intro job run hrun hout
    exact Classical.not_not.1 fun hne => hout ⟨run, hrun, hne⟩
  cases hdoes with
  | aside hsame => rw [hsame.registry]; exact h
  | callBack => exact h
  | limit => exact h
  | say => exact h
  | addJob hr => exact h.addJob hsound hr
  | changeJob hr => exact h.changeJob hr
  | addExecutor hr =>
    obtain ⟨-, -, rfl⟩ := Registry.of_addExecutor hr
    exact h
  | removeExecutor hr =>
    obtain rfl := Registry.of_removeExecutor hr
    exact h
  | changeExecutor hr =>
    obtain ⟨-, -, -, -, rfl⟩ := Registry.of_changeExecutor hr
    exact h
  | keepAlive hr =>
    obtain rfl := Registry.of_keepAlive hr
    exact h
  | start he hdef hrun => exact (h.modifyRun_iff hrun _).2 (by simp [Run.start, Run.isPending])
  | confirm hrun hst hs =>
    refine (h.modifyRun_iff hrun _).2 fun hpending => ?_
    -- a starting run is bound, and being confirmed does not change that
    have hexec := ((hsound.shaped hrun).of_started (Run.isStarting_iff.1 hs).1).1
    have hnone := (Run.isPending_iff.1 hpending).1
    simp only [Run.confirm] at hnone
    simp [hnone] at hexec
  | mark hrun hst => exact (h.modifyRun_iff hrun _).2 (by simp [Run.isPending, hst])
  | discard hrun => exact h.removeRun
  | stop hrun => exact (h.modifyRun_iff hrun _).2 (by simp [Run.stop, Run.isPending])
  | release hrun =>
    have hjob := hcurrent hrun hkeeps
    exact (h.modifyRun_iff hrun _).2 fun _ => hjob
  | settle hrun =>
    obtain ⟨definition, hdef⟩ := hsound.job_of_run hrun
    simp only [report_registry, put_registry, noteStop_registry, hdef, Option.getD_some]
    exact (h.modifyRun_iff hrun _).2 fun _ => hdef
  | finish hrun =>
    simp only [drop_registry, noteStop_registry]
    exact h.removeRun
  | forget hrun =>
    have hjob := hcurrent hrun hkeeps
    exact (h.modifyRun_iff hrun _).2 fun _ => hjob
  | adopt _ hrun =>
    exact (h.modifyRun_iff hrun _).2 (by simp [Run.bind, Run.adopt, Run.isPending])
  | expel _ hrun =>
    exact (h.modifyRun_iff hrun _).2 (by simp [Run.bind, Run.stop, Run.isPending])

/-! ### Advances that drop a run -/

/-- The advance takes the run of a job off its executor without a stop: its start has failed, or
the executor reports what it hosts and leaves the job out. -/
inductive Advance.Drops (s : Scheduler κ) : Advance κ → String → Prop
  | failed {a : Advance κ} {c : Completion} {job : String} : a.completion? = some c →
      s.effect? c = some (.release job) → Drops s a job
  | unlisted {ticket : Ticket} {executor job : String} {jobs : List String} {e : Executor κ}
      {run : Run κ} {heard looked shown : Instant} :
      s.registry.executor? executor = some e → s.registry.runs.get? job = some run →
      run.stopping = false → run.executor = some executor → job ∉ jobs →
      Drops s (.turn (.request ticket (.jobsOnExecutor executor jobs)) heard looked shown) job

/-- The advance drops a run after its job was redefined. -/
def Advance.LosesUpdate (s : Scheduler κ) (a : Advance κ) : Prop :=
  ∃ job, a.Drops s job ∧ s.registry.Outdated job

theorem Advance.grants_keeps {a : Advance κ} (h : ¬ a.LosesUpdate s) :
    a.Grants (fun _ s d => ¬ d.LosesUpdate s) s where
  routine _ d hd := by
    cases d <;> first | exact hd.elim | exact id
  later _ d hd := by
    cases d <;> first | exact hd.elim | exact id
  callBack _ _ := id
  effect c d hc hd := by
    obtain ⟨run, -, -, hreturns⟩ := Scheduler.effect?_eq_some_iff.1 hd
    cases hreturns with
    | release => exact fun hout => h ⟨c.job, .failed hc hd, hout⟩
    | _ => exact id
  add _ _ _ _ _ _ := id
  change _ _ _ _ _ _ := id
  start _ _ _ _ _ _ _ _ _ _ := id
  forget ticket executor jobs heard looked shown ha s' id run e he hst hexec hout hrun hrun'
      hjobs := by
    rintro ⟨run', hget, hne⟩
    obtain rfl : run = run' := by simpa [hrun'] using hget
    subst ha
    exact h ⟨id, .unlisted he hrun hst hexec hout, run, hrun, hjobs ▸ hne⟩
  adopt _ _ _ _ _ _ _ _ _ := id
  redefine _ _ _ _ _ _ := id

theorem Course.pendingCurrent {s' : Scheduler κ}
    (h : Course (fun _ s d => ¬ d.LosesUpdate s) s s') (hsound : s.registry.Sound)
    (hs : s.registry.PendingCurrent) : s'.registry.PendingCurrent :=
  h.invariant_of_sound (I := fun s => s.registry.PendingCurrent) hsound hs
    fun _ _ _ _ hsound hcurrent hkeeps hdoes => hdoes.pendingCurrent hsound hcurrent hkeeps

/-! ### What is lost stays lost until the plan is looked at -/

theorem Does.release_stale (h : Does now s (.release id) s') (hout : s.registry.Outdated id) :
    s'.registry.Stale id := by
  cases h with
  | @release _ run cause hrun hst =>
    have hsame : ∀ run', s.registry.runs.get? id = some run' → run' = run := by
      intro run' hrun'
      simpa [hrun] using hrun'.symm
    refine hout.stale (fun run' hrun' => ?_) fun _ _ => ?_
    · rw [hsame run' hrun']
      rfl
    · simp [Run.release, Run.isPending, hst]

namespace Scheduler

variable {job : String}

omit [Quantity κ] in
/-- A run that is dropped is pending with the definition that it carries. -/
theorem unlisting_stale {executor : String} {listed : List String}
    (hkey : ∀ {id : String} {run : Run κ}, s.registry.runs.get? id = some run → run.job.id = id)
    (hrun : s.registry.runs.get? id = some run) (hst : run.stopping = false)
    (hexec : run.executor = some executor) (hout : id ∉ listed) (h : s.registry.Outdated id) :
    (s.unlisting executor listed now).registry.Stale id := by
  obtain ⟨run', hrun', hne⟩ := h
  obtain rfl : run = run' := Option.some.inj (hrun.symm.trans hrun')
  refine ⟨{ run.release now with attempt := run.attempt + 1 }, ?_, ?_, ?_⟩
  · rw [get?_unlisting hkey, hrun, Option.map_some, if_pos ⟨hst, hexec, hout⟩]
  · simp [Run.release, Run.isPending, hst]
  · rw [unlisting_jobs]
    exact hne

theorem hosting_keeps_stale {executor : String} {revision : UInt64} {jobs : List String}
    (hout : id ∉ jobs) (h : s.registry.Stale id) :
    (s.hosting executor revision now jobs).registry.Stale id := by
  induction jobs generalizing s with
  | nil => exact h
  | cons job jobs ih =>
    obtain ⟨hne, hout⟩ := not_or.1 (mt List.mem_cons.2 hout)
    obtain ⟨hruns, hjobs⟩ := host_other hne s executor revision now
    exact ih hout (h.congr hruns hjobs)

/-- A report that leaves out an outdated job makes it pending as it is. -/
theorem jobsOnExecutor_stale {executor : String} {jobs : List String} {e : Executor κ}
    {run : Run κ} (he : s.registry.executor? executor = some e)
    (hkey : ∀ {id : String} {run : Run κ}, s.registry.runs.get? id = some run → run.job.id = id)
    (hrun : s.registry.runs.get? id = some run) (hst : run.stopping = false)
    (hexec : run.executor = some executor) (hunlisted : id ∉ jobs)
    (hout : s.registry.Outdated id) :
    (s.jobsOnExecutor executor jobs now).1.registry.Stale id := by
  have hlist : id ∉ firstOccurrences jobs := fun h => hunlisted (mem_firstOccurrences.1 h)
  rw [jobsOnExecutor_eq jobs he]
  exact hosting_keeps_stale hlist (unlisting_stale hkey hrun hst hexec hlist hout)

end Scheduler

/-- An advance that drops an outdated run has a stale pending run when it looks at the plan. -/
theorem Advance.takeIn_stale {a : Advance κ} (hsound : s.registry.Sound)
    (h : a.LosesUpdate s) : ∃ id, (a.takeIn s).registry.Stale id := by
  obtain ⟨id, hdrops, hout⟩ := h
  refine ⟨id, ?_⟩
  cases hdrops with
  | @failed _ c _ hc hd =>
    rw [Advance.takeIn_completion hc]
    rcases Scheduler.complete_eq s c a.heard with ⟨hnone, -⟩ | ⟨d, hd', hdoes⟩
    · simp [hd] at hnone
    · obtain rfl : d = .release id := by simpa [hd] using hd'.symm
      exact hdoes.release_stale hout
  | unlisted he hrun hst hexec hunlisted =>
    exact Scheduler.jobsOnExecutor_stale he hsound.run_key hrun hst hexec hunlisted hout

/-! ### What is committed is what was checked -/

/-- A start or an adoption puts a pending run on its executor at the cost that the run carries,
which is the cost that placement checked. -/
def Scheduler.CommitsChecked (s : Scheduler κ) : Prop :=
  ∀ job run executor e now, s.registry.runs.get? job = some run → run.isPending = true →
    s.registry.executor? executor = some e →
    (∃ run', (s.startRun job executor now).1.registry.runs.get? job = some run' ∧
      run'.executor = some executor ∧ run'.job.cost = run.job.cost) ∧
    ∃ run', (s.host executor e.revision job now).1.registry.runs.get? job = some run' ∧
      run'.executor = some executor ∧ run'.job.cost = run.job.cost

theorem Scheduler.commitsChecked (h : s.registry.PendingCurrent) : s.CommitsChecked := by
  intro job run executor e now hrun hpending he
  constructor
  · have hdef := h job run hrun hpending
    refine ⟨run.start run.job e now, ?_, ?_, rfl⟩
    · simp [startRun, he, hdef, hrun, Registry.get?_modifyRun hrun]
    · simp [Run.start, (Registry.mem_of_executor? he).2]
  · obtain ⟨hexec, hst⟩ := Run.isPending_iff.1 hpending
    have hbound : run.isBoundTo executor = false := by simp [Run.isBoundTo, hexec]
    by_cases hadmits : admits s.registry s.config executor run.job.cost now = true
    · refine ⟨(run.bind executor e.revision).adopt now, ?_, rfl, rfl⟩
      simp [host, hrun, hst, hexec, hbound, hadmits, Registry.get?_modifyRun hrun]
    · refine ⟨(run.bind executor e.revision).stop false now, ?_, rfl, rfl⟩
      simp [host, hrun, hst, hexec, hbound, hadmits, expel_eq hrun hst,
        Registry.get?_modifyRun hrun]

/-- Pending runs are current after every advance that drops no outdated run. -/
theorem ReachedBy.pendingCurrent {P : Scheduler κ → Advance κ → Prop} {config : Config κ}
    {session : Session κ} (hP : ∀ s a, P s a → ¬ a.LosesUpdate s)
    (h : ReachedBy P config session) : session.scheduler.registry.PendingCurrent := by
  refine h.invariant (I := fun session => session.scheduler.registry.PendingCurrent)
    (fun _ _ => Registry.PendingCurrent.empty) ?_
  rintro session a _ hreach hcurrent hkeeps ⟨-, -, rest, -, rfl⟩
  exact (Advance.course hreach.sound.run_key
    (Advance.grants_keeps (hP _ _ hkeeps))).pendingCurrent hreach.sound hcurrent

theorem Advance.takeIn_pendingCurrent {a : Advance κ} (hsound : s.registry.Sound)
    (hcurrent : s.registry.PendingCurrent) (hkeeps : ¬ a.LosesUpdate s) :
    (a.takeIn s).registry.PendingCurrent :=
  (Advance.takeIn_course hsound.run_key
    (Advance.grants_keeps hkeeps).toGrantsIntake).pendingCurrent hsound hcurrent

/-- **Pending runs are current as long as no outdated run is dropped**, and no longer.  Then every
start and every adoption commits the cost that was checked. -/
theorem pendingCurrent_iff {config : Config κ} {session : Session κ}
    (h : ReachedBy (fun s a => ¬ a.LosesUpdate s) config session) :
    session.scheduler.registry.PendingCurrent ∧ session.scheduler.CommitsChecked ∧
      ∀ a next, session.Step a next →
        ((a.takeIn session.scheduler).registry.PendingCurrent ↔
          ¬ a.LosesUpdate session.scheduler) ∧
        (¬ a.LosesUpdate session.scheduler → (a.takeIn session.scheduler).CommitsChecked) := by
  have hcurrent := h.pendingCurrent fun _ _ => id
  refine ⟨hcurrent, Scheduler.commitsChecked hcurrent, ?_⟩
  intro a next _
  have htaken : ¬ a.LosesUpdate session.scheduler →
      (a.takeIn session.scheduler).registry.PendingCurrent :=
    Advance.takeIn_pendingCurrent h.sound hcurrent
  refine ⟨⟨?_, htaken⟩, ?_⟩
  · intro hafter hloses
    obtain ⟨id, hstale⟩ := Advance.takeIn_stale h.sound hloses
    exact hstale.not_pendingCurrent hafter
  · intro hkeeps
    exact Scheduler.commitsChecked (htaken hkeeps)

/-- An advance that cannot drop a run: no call is reported as failed, and no list of hosted jobs. -/
def Advance.isHarmless : Advance κ → Bool
  | .turn (.completion c) .. => c.result.isOk
  | .turn (.request _ (.jobsOnExecutor ..)) .. => false
  | .drain c .. => c.result.isOk
  | _ => true

omit [Quantity κ] in
theorem Advance.not_losesUpdate {a : Advance κ} (h : a.isHarmless = true) :
    ¬ a.LosesUpdate s := by
  rintro ⟨job, hdrops, -⟩
  cases hdrops with
  | @failed _ c _ hc hd =>
    have hok : c.result.isOk = true := by
      cases a with
      | turn e => cases e <;> simp_all [completion?, isHarmless]
      | leave => simp [completion?] at hc
      | drain => simp_all [completion?, isHarmless]
    -- only a failed call takes a run off its executor
    obtain ⟨run, -, -, hreturns⟩ := Scheduler.effect?_eq_some_iff.1 hd
    cases hreturns with
    | release cause kind result => simp [result, Except.isOk, Except.toBool] at hok
  | unlisted => simp [isHarmless] at h

/-- A job of cost 1 is redefined at cost 100 while it runs, stopped for it, and pending again. -/
def redefinedRun : Session ℚ :=
  (Session.play (fun _ a => a.isHarmless) { scheduler := { config := startConfirms }, now := 0 }
    [(0, .request (.addExecutor { id := "a", capacity := 10 })),
      (0, .request (.addJob { id := "j", cost := 1 })),
      (0, .answer 0 (.ok ())),
      (0, .request (.changeJob { id := "j", cost := 100 })),
      (0, .answer 0 (.ok ()))]).get (by decide +kernel)

theorem pendingCurrent_redefinedRun :
    (∃ run, redefinedRun.scheduler.registry.runs.get? "j" = some run ∧ run.isPending = true ∧
        run.job.cost = 100) ∧
      redefinedRun.scheduler.registry.PendingCurrent ∧ redefinedRun.scheduler.CommitsChecked := by
  have hreach : ReachedBy (fun s a => ¬ a.LosesUpdate s) startConfirms redefinedRun :=
    Session.play_reachedBy (fun _ _ h => Advance.not_losesUpdate h)
      (.start 0 (by decide +kernel)) (Option.some_get _).symm
  have hpending : ((redefinedRun.scheduler.registry.runs.get? "j").map fun run =>
      (run.isPending, run.job.cost)) = some (true, 100) := by decide +kernel
  obtain ⟨run, hrun, hrun'⟩ := Option.map_eq_some_iff.1 hpending
  obtain ⟨hp, hcost⟩ := Prod.ext_iff.1 hrun'
  obtain ⟨hcurrent, hcommits, -⟩ := pendingCurrent_iff hreach
  exact ⟨⟨run, hrun, hp, hcost⟩, hcurrent, hcommits⟩

/-- Four jobs run on an executor.  While the planner is busy stopping the first two, the last one is
redefined at cost 100 and then left out of a report. -/
def leftOut : Session ℚ :=
  (Session.play (fun _ _ => true) { scheduler := { config := startConfirms }, now := 0 }
    [(0, .request (.addExecutor { id := "A", capacity := 10 })),
      (0, .request (.addJob { id := "j1", cost := 1 })),
      (0, .answer 0 (.ok ())),
      (0, .request (.addJob { id := "j2", cost := 1 })),
      (0, .answer 0 (.ok ())),
      (0, .request (.addJob { id := "j3", cost := 1 })),
      (0, .answer 0 (.ok ())),
      (0, .request (.addJob { id := "j4", cost := 1 })),
      (0, .answer 0 (.ok ())),
      (0, .request (.changeExecutor { id := "A", capacity := 10, settingsHash := 1 })),
      (0, .request (.changeJob { id := "j4", cost := 100 })),
      (0, .request (.jobsOnExecutor "A" []))]).get (by decide +kernel)

/-- The last of the four jobs is pending at its former cost. -/
theorem pendingCurrent_fails :
    Reachable startConfirms leftOut ∧ ¬ leftOut.scheduler.registry.PendingCurrent := by
  have hreach : Reachable startConfirms leftOut :=
    Session.play_reachedBy (fun _ _ _ => trivial) (.start 0 (by decide +kernel))
      (Option.some_get _).symm
  have hpending : ((leftOut.scheduler.registry.runs.get? "j4").map fun run =>
      (run.isPending, run.job.cost)) = some (true, 1) := by decide +kernel
  have hregistered : (leftOut.scheduler.registry.jobs.get? "j4").map (·.cost) = some 100 := by
    decide +kernel
  obtain ⟨run, hrun, hrun'⟩ := Option.map_eq_some_iff.1 hpending
  obtain ⟨hp, hcost⟩ := Prod.ext_iff.1 hrun'
  refine ⟨hreach, fun hcurrent => ?_⟩
  rw [hcurrent "j4" run hrun hp, Option.map_some, Option.some.injEq] at hregistered
  exact absurd (hcost.symm.trans hregistered) (by decide +kernel)

end Dispatch
