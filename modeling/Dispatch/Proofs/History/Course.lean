import Dispatch.Proofs.History.Deed
import Dispatch.Proofs.Registry.Operations

/-!
# What every advance is made of

Each function of the scheduler is a chain of deeds:

* `Scheduler.complete_eq` : the return of a call brings about one deed or none, which
  `Scheduler.effect?` reads off the run of the job and the outcome;
* `Scheduler.stopRun_halts`, `Scheduler.host_hosts`, `Scheduler.jobsOnExecutor_eq` : what a stop, a
  hosted job and a whole report of an executor come to, and `Scheduler.get?_unlisting` which runs
  the report drops;
* `Scheduler.host_course`, `Scheduler.jobsOnExecutor_course`, `Scheduler.handle_course` : commands;
* `Scheduler.reconcile_course` : one look at the plan;
* `Advance.takeIn_course` : what an advance takes in, all at the instant at which it is heard;
* `Advance.sequel_course` : what it does then, all at the instant at which the plan is looked at;
* `Advance.course` : a whole advance.

Most deeds are routine (`Deed.IsRoutine`).  The others occur at one place each, so a condition on
them is asked for at that place, and only there.
-/

namespace Dispatch

variable {κ : Type}

/-- Every deed but those that count a call as come back, redefine a job, bring in a capacity, put a
run on an executor or take one off it. -/
def Deed.IsRoutine : Deed κ → Prop
  | .callBack | .changeJob _ | .addExecutor _ | .changeExecutor _ | .start .. | .release _
  | .settle _ | .finish _ | .forget _ | .adopt .. => False
  | _ => True

namespace Scheduler

/-- The scheduler with one call fewer under way. -/
def heardBack (s : Scheduler κ) : Scheduler κ := { s with inFlight := s.inFlight - 1 }

/-- What the return of a call brings about, if anything: its run must be as the call left it. -/
def effect? (s : Scheduler κ) (c : Completion) : Option (Deed κ) :=
  match s.registry.runs.get? c.job with
  | none => none
  | some run =>
    if run.attempt ≠ c.attempt then none
    else
      match c.kind, c.result with
      | .start, .ok () =>
        if s.config.runningOnStart && !run.stopping && run.isStarting then some (.confirm c.job)
        else none
      | .start, .error _ =>
        if !run.stopping && run.startedAt.isSome then some (.release c.job) else none
      | .stop, _ =>
        if !run.stopping then none
        else if run.removing then some (.finish c.job)
        else some (.settle c.job)

theorem modifyRun_eq {s : Scheduler κ} {job : String} {run : Run κ}
    (hrun : s.registry.runs.get? job = some run) (f : Run κ → Run κ) :
    s.modifyRun job f = s.modifyRun job fun _ => f run := by
  simp only [modifyRun, Registry.modifyRun, Table.modify_eq hrun f]

/-- What a completion brings about when it is matched with a run, and on what grounds. -/
inductive Returns (s : Scheduler κ) (c : Completion) (run : Run κ) : Deed κ → Prop
  | confirm (kind : c.kind = .start) (result : c.result = .ok ())
      (prompt : s.config.runningOnStart = true) (free : run.stopping = false)
      (starting : run.isStarting = true) : Returns s c run (.confirm c.job)
  | release (cause : CallError) (kind : c.kind = .start) (result : c.result = .error cause)
      (free : run.stopping = false) (started : run.startedAt.isSome = true) :
      Returns s c run (.release c.job)
  | finish (kind : c.kind = .stop) (stopping : run.stopping = true)
      (removing : run.removing = true) : Returns s c run (.finish c.job)
  | settle (kind : c.kind = .stop) (stopping : run.stopping = true)
      (staying : run.removing = false) : Returns s c run (.settle c.job)

/-- The deed of a completion is that of the run with its id and its attempt. -/
theorem effect?_eq_some_iff {s : Scheduler κ} {c : Completion} {d : Deed κ} :
    s.effect? c = some d ↔ ∃ run, s.registry.runs.get? c.job = some run ∧
      run.attempt = c.attempt ∧ s.Returns c run d := by
  constructor
  · intro h
    unfold effect? at h
    split at h
    · cases h
    rename_i run hrun
    split at h
    · cases h
    rename_i hatt
    refine ⟨run, hrun, by simpa using hatt, ?_⟩
    split at h
    · rename_i hkind hresult
      split at h
      · rename_i hon
        simp only [Bool.and_eq_true, Bool.not_eq_true'] at hon
        obtain rfl := Option.some.inj h
        exact .confirm hkind hresult hon.1.1 hon.1.2 hon.2
      · cases h
    · rename_i cause hkind hresult
      split at h
      · rename_i hon
        simp only [Bool.and_eq_true, Bool.not_eq_true'] at hon
        obtain rfl := Option.some.inj h
        exact .release cause hkind hresult hon.1 hon.2
      · cases h
    · rename_i hkind
      split at h
      · cases h
      rename_i hst
      have hstopping : run.stopping = true := by simpa using hst
      split at h
      · rename_i hrm
        obtain rfl := Option.some.inj h
        exact .finish hkind hstopping hrm
      · rename_i hrm
        obtain rfl := Option.some.inj h
        exact .settle hkind hstopping (by simpa using hrm)
  · rintro ⟨run, hrun, hatt, hreturns⟩
    cases hreturns with
    | confirm kind result prompt free starting =>
      simp [effect?, hrun, hatt, kind, result, prompt, free, starting]
    | release cause kind result free started =>
      simp [effect?, hrun, hatt, kind, result, free, started]
    | finish kind stopping removing => simp [effect?, hrun, hatt, kind, stopping, removing]
    | settle kind stopping staying => simp [effect?, hrun, hatt, kind, stopping, staying]

variable [Quantity κ] {s : Scheduler κ} {now : Instant}
  {Q : Instant → Scheduler κ → Deed κ → Prop}

theorem startFinished_confirms {job : String} {run : Run κ}
    (hrun : s.registry.runs.get? job = some run) (hon : s.config.runningOnStart = true)
    (hst : run.stopping = false) (hs : run.isStarting = true) :
    Does now s (.confirm job) (s.startFinished job run.attempt (.ok ()) now) := by
  have hstarted : run.startedAt.isNone = false := by
    simp only [Run.isStarting, Bool.and_eq_true] at hs
    simpa using hs.1
  have heq : s.startFinished job run.attempt (.ok ()) now =
      (s.put job (run.confirm now) .running now).report .jobRunning (run.confirm now) := by
    simp [startFinished, confirmRun, put, hrun, hon, hst, hs, hstarted]
  rw [heq]
  exact .confirm hrun hst hs

omit [Quantity κ] in
theorem startFinished_absorbs {job : String} {run : Run κ}
    (hrun : s.registry.runs.get? job = some run)
    (hno : (s.config.runningOnStart && !run.stopping && run.isStarting) = false) :
    s.startFinished job run.attempt (.ok ()) now = s := by
  cases hon : s.config.runningOnStart <;> cases hst : run.stopping <;>
    cases hs : run.isStarting <;> simp_all [startFinished, confirmRun]

theorem startFinished_releases {job : String} {run : Run κ} {cause : CallError}
    (hrun : s.registry.runs.get? job = some run) (hst : run.stopping = false)
    (hs : run.startedAt.isSome = true) :
    Does now s (.release job) (s.startFinished job run.attempt (.error cause) now) := by
  have hstarted : run.startedAt.isNone = false := by simpa using hs
  have heq : s.startFinished job run.attempt (.error cause) now =
      (s.put job (run.release now) .existing now).report .startFailed (run.release now)
        (some cause) := by
    simp [startFinished, put, hrun, hst, hstarted]
  rw [heq]
  exact .release hrun hst hs

omit [Quantity κ] in
/-- The end of a stop, for a job that is to be removed. -/
theorem stopFinished_finishes {job : String} {run : Run κ} (result : CallResult)
    (hrun : s.registry.runs.get? job = some run) (hst : run.stopping = true)
    (hrm : run.removing = true) :
    s.stopFinished job run.attempt result now = (s.noteStop run result).drop job now := by
  cases result <;> simp [stopFinished, noteStop, drop, hrun, hst, hrm]

omit [Quantity κ] in
/-- The end of a stop, for a job that stays. -/
theorem stopFinished_settles {job : String} {run : Run κ} (result : CallResult)
    (hrun : s.registry.runs.get? job = some run) (hst : run.stopping = true)
    (hrm : run.removing = false) :
    s.stopFinished job run.attempt result now =
      ((s.noteStop run result).put job
        (run.settle ((s.registry.jobs.get? job).getD run.job)) .existing now).report .jobEnded
        (run.settle ((s.registry.jobs.get? job).getD run.job)) := by
  cases result <;> simp [stopFinished, noteStop, put, report, emit, hrun, hst, hrm]

theorem stopFinished_does {job : String} {run : Run κ} (result : CallResult)
    (hrun : s.registry.runs.get? job = some run) (hst : run.stopping = true) :
    Does now s (if run.removing then .finish job else .settle job)
      (s.stopFinished job run.attempt result now) := by
  cases hrm : run.removing with
  | true =>
    rw [stopFinished_finishes result hrun hst hrm]
    exact .finish hrun hst hrm
  | false =>
    rw [stopFinished_settles result hrun hst hrm]
    exact .settle hrun hst hrm

/-- **The return of a call** brings about the deed that `effect?` names, or nothing at all. -/
theorem complete_eq (s : Scheduler κ) (c : Completion) (now : Instant) :
    (s.effect? c = none ∧ s.complete c now = s.heardBack) ∨
      ∃ d, s.effect? c = some d ∧ Does now s.heardBack d (s.complete c now) := by
  obtain ⟨kind, job, attempt, result⟩ := c
  cases hrun : s.registry.runs.get? job with
  | none =>
    left
    cases kind <;> simp [effect?, complete, startFinished, stopFinished, heardBack, hrun]
  | some run =>
    have hrun' : s.heardBack.registry.runs.get? job = some run := hrun
    -- under another attempt the run has moved on, and no branch is taken
    by_cases hatt : run.attempt = attempt
    · subst hatt
      cases kind with
      | stop =>
        cases hst : run.stopping with
        | false => exact .inl (by simp [effect?, complete, stopFinished, heardBack, hrun, hst])
        | true =>
          refine .inr ⟨_, ?_, stopFinished_does result hrun' hst⟩
          cases hrm : run.removing <;> simp [effect?, hrun, hst, hrm]
      | start =>
        cases result with
        | ok =>
          cases hon : s.config.runningOnStart && !run.stopping && run.isStarting with
          | false =>
            exact .inl ⟨by simp [effect?, hrun, hon], startFinished_absorbs hrun' hon⟩
          | true =>
            refine .inr ⟨.confirm job, by simp [effect?, hrun, hon], ?_⟩
            simp only [Bool.and_eq_true, Bool.not_eq_true'] at hon
            exact startFinished_confirms hrun' hon.1.1 hon.1.2 hon.2
        | error cause =>
          cases hon : !run.stopping && run.startedAt.isSome with
          | false =>
            refine .inl ⟨by simp [effect?, hrun, hon], ?_⟩
            cases hst : run.stopping <;> simp_all [complete, startFinished, heardBack]
          | true =>
            refine .inr ⟨.release job, by simp [effect?, hrun, hon], ?_⟩
            simp only [Bool.and_eq_true, Bool.not_eq_true'] at hon
            exact startFinished_releases hrun' hon.1 hon.2
    · left
      cases kind <;>
        simp [effect?, complete, startFinished, stopFinished, heardBack, hrun, hatt]

/-! ### Single runs -/

omit [Quantity κ] in
/-- What a stop of a job comes to. -/
inductive Halts (s : Scheduler κ) (job : String) (remove : Bool) (now : Instant) :
    Scheduler κ → Prop
  | nothing : Halts s job remove now s
  | mark {run : Run κ} (found : s.registry.runs.get? job = some run)
      (stopping : run.stopping = true) (asked : remove = true) (staying : run.removing = false) :
      Halts s job remove now (s.modifyRun job fun _ => { run with removing := true })
  | discard {run : Run κ} (found : s.registry.runs.get? job = some run)
      (free : run.stopping = false) (unbound : run.executor = none) (asked : remove = true) :
      Halts s job remove now (s.drop job now)
  | stop {executor : String} {run : Run κ} (found : s.registry.runs.get? job = some run)
      (free : run.stopping = false) (bound : run.executor = some executor) :
      Halts s job remove now (s.putStop job (run.stop remove now) now)

omit [Quantity κ] in
theorem stopRun_halts (s : Scheduler κ) (job : String) (remove : Bool) (now : Instant) :
    s.Halts job remove now (s.stopRun job remove now).1 := by
  unfold stopRun
  split
  · exact .nothing
  rename_i run hrun
  split
  · rename_i hst
    split
    · rename_i hmark
      simp only [Bool.and_eq_true, Bool.not_eq_true'] at hmark
      rw [modifyRun_eq hrun]
      exact .mark hrun hst hmark.1 hmark.2
    · exact .nothing
  rename_i hst
  replace hst : run.stopping = false := by simpa using hst
  split
  · rename_i hexec
    split
    · rename_i hremove
      exact .discard hrun hst (by simpa using hexec) hremove
    · exact .nothing
  · rename_i hexec
    have hbound : run.executor.isSome = true := by
      simpa [Option.isSome_iff_ne_none] using hexec
    obtain ⟨executor, he⟩ := Option.isSome_iff_exists.1 hbound
    exact .stop hrun hst he

omit [Quantity κ] in
/-- A job that is on an executor begins to stop. -/
theorem stopRun_bound {job : String} {run : Run κ} (hrun : s.registry.runs.get? job = some run)
    (hst : run.stopping = false) (hexec : run.executor.isSome = true) (remove : Bool)
    (now : Instant) :
    s.stopRun job remove now = (s.putStop job (run.stop remove now) now, .ok ()) := by
  have hbound : run.executor.isNone = false := by simpa [Option.isSome_iff_ne_none] using hexec
  simp [stopRun, hrun, hst, hbound, putStop, put]

theorem stopRun_course (routine : ∀ s d, d.IsRoutine → Q now s d) (s : Scheduler κ) (job : String)
    (remove : Bool) : Course Q s (s.stopRun job remove now).1 := by
  have hhalts := stopRun_halts s job remove now
  generalize (s.stopRun job remove now).1 = s' at hhalts ⊢
  cases hhalts with
  | nothing => exact .refl s
  | mark hrun hst => exact .single (.mark hrun hst) (routine _ _ trivial)
  | discard hrun hst hexec => exact .single (.discard hrun hst hexec) (routine _ _ trivial)
  | stop hrun hst he => exact .single (.stop hrun hst he) (routine _ _ trivial)

/-- A confirmation counts for a starting job only. -/
theorem confirmRun_does (s : Scheduler κ) (job : String) (now : Instant) :
    (s.confirmRun job now).1 = s ∨ Does now s (.confirm job) (s.confirmRun job now).1 := by
  unfold confirmRun
  split
  · exact .inl rfl
  rename_i run hrun
  split
  · exact .inl rfl
  rename_i hst
  simp only [Bool.or_eq_true, Bool.not_eq_true', not_or, Bool.not_eq_true,
    Bool.not_eq_false] at hst
  exact .inr (.confirm hrun hst.1 hst.2)

theorem confirmRun_course (routine : ∀ s d, d.IsRoutine → Q now s d) (s : Scheduler κ)
    (job : String) : Course Q s (s.confirmRun job now).1 := by
  rcases confirmRun_does s job now with heq | hdoes
  · rw [heq]
    exact .refl s
  · exact .single hdoes (routine _ _ trivial)

/-- A planned start puts a run on an executor, unless one of them is not registered. -/
theorem startRun_does {job executor : String}
    (hplan : (plan s.registry s.config now).action = some (.start job executor)) :
    (s.startRun job executor now).1 = s ∨
      Does now s (.start job executor) (s.startRun job executor now).1 := by
  unfold startRun
  split
  · rename_i e definition run he hdef hrun
    exact .inr (.start he hdef hrun hplan)
  · exact .inl rfl
  · exact .inl rfl

theorem startRun_course {job executor : String}
    (hplan : (plan s.registry s.config now).action = some (.start job executor))
    (hQ : Q now s (.start job executor)) : Course Q s (s.startRun job executor now).1 := by
  rcases startRun_does hplan with heq | hdoes
  · rw [heq]
    exact .refl s
  · exact .single hdoes hQ

/-! ### Reports of executors -/

omit [Quantity κ] in
/-- A run that is bound only to be stopped at once. -/
theorem expel_eq {executor job : String} {revision : UInt64} {run : Run κ}
    (hrun : s.registry.runs.get? job = some run) (hst : run.stopping = false) :
    ((s.modifyRun job fun run => run.bind executor revision).stopRun job false now).1 =
      s.putStop job ((run.bind executor revision).stop false now) now := by
  have hbound : (s.modifyRun job fun run => run.bind executor revision).registry.runs.get? job =
      some (run.bind executor revision) := by
    rw [modifyRun, Registry.get?_modifyRun hrun, if_pos rfl]
  rw [stopRun_bound hbound hst rfl]
  simp [putStop, put, modifyRun, Registry.modifyRun, Table.modify_modify]

/-- What it comes to that an executor hosts a job. -/
inductive Hosts (s : Scheduler κ) (executor : String) (revision : UInt64) (job : String)
    (now : Instant) : Scheduler κ → Prop
  | unknown (missing : s.registry.runs.get? job = none) :
      Hosts s executor revision job now (s.report .unknownJob (stranger job executor))
  | nothing {run : Run κ} (found : s.registry.runs.get? job = some run)
      (settled : run.stopping = true ∨ run.executor = some executor) :
      Hosts s executor revision job now s
  | elsewhere {run : Run κ} {other : String} (found : s.registry.runs.get? job = some run)
      (free : run.stopping = false) (bound : run.executor = some other)
      (away : other ≠ executor) :
      Hosts s executor revision job now (s.putStop job (run.stop false now) now)
  | adopt {run : Run κ} (found : s.registry.runs.get? job = some run)
      (free : run.stopping = false) (unbound : run.executor = none)
      (admitted : admits s.registry s.config executor run.job.cost now = true) :
      Hosts s executor revision job now
        (s.put job ((run.bind executor revision).adopt now) .running now)
  | expel {run : Run κ} (found : s.registry.runs.get? job = some run)
      (free : run.stopping = false) (unbound : run.executor = none)
      (refused : admits s.registry s.config executor run.job.cost now = false) :
      Hosts s executor revision job now
        (s.putStop job ((run.bind executor revision).stop false now) now)

theorem host_hosts (s : Scheduler κ) (executor : String) (revision : UInt64) (job : String)
    (now : Instant) :
    s.Hosts executor revision job now (s.host executor revision job now).1 := by
  unfold host
  split
  · rename_i hnone
    exact .unknown hnone
  rename_i run hrun
  split
  · rename_i hsettled
    exact .nothing hrun (by simpa [Run.isBoundTo] using hsettled)
  rename_i hfree
  have hst : run.stopping = false := by
    simp only [Bool.or_eq_true, not_or, Bool.not_eq_true] at hfree
    exact hfree.1
  split
  · rename_i hsome
    obtain ⟨other, hother⟩ := Option.isSome_iff_exists.1 hsome
    rw [stopRun_bound hrun hst hsome]
    refine .elsewhere hrun hst hother ?_
    rintro rfl
    simp [Run.isBoundTo, hother] at hfree
  rename_i hnone
  have hexec : run.executor = none := by simpa using hnone
  split
  · rename_i hadmits
    rw [modifyRun_eq hrun]
    exact .adopt hrun hst hexec hadmits
  · rename_i hrefused
    rw [expel_eq hrun hst]
    exact .expel hrun hst hexec (by simpa using hrefused)

theorem host_course (routine : ∀ s d, d.IsRoutine → Q now s d) {executor job : String}
    (adopt : ∀ s job, Q now s (.adopt job executor)) {e : Executor κ}
    (he : s.registry.executor? executor = some e) :
    Course Q s (s.host executor e.revision job now).1 := by
  have hhosts := host_hosts s executor e.revision job now
  generalize (s.host executor e.revision job now).1 = s' at hhosts ⊢
  cases hhosts with
  | unknown => exact .single (.say rfl) (routine _ _ trivial)
  | nothing => exact .refl s
  | elsewhere hrun hst hother => exact .single (.stop hrun hst hother) (routine _ _ trivial)
  | adopt hrun hst hexec hadmits =>
    exact .single (.adopt he hrun hst hexec hadmits) (adopt _ _)
  | expel hrun hst hexec => exact .single (.expel he hrun hst hexec) (routine _ _ trivial)

omit [Quantity κ] in
@[simp] theorem stopRun_executors (s : Scheduler κ) (job : String) (remove : Bool) :
    (s.stopRun job remove now).1.registry.executors = s.registry.executors := by
  have hhalts := stopRun_halts s job remove now
  generalize (s.stopRun job remove now).1 = s' at hhalts ⊢
  cases hhalts <;> rfl

@[simp] theorem host_executors (s : Scheduler κ) (executor : String) (revision : UInt64)
    (job : String) :
    (s.host executor revision job now).1.registry.executors = s.registry.executors := by
  have hhosts := host_hosts s executor revision job now
  generalize (s.host executor revision job now).1 = s' at hhosts ⊢
  cases hhosts <;> rfl

/-- Bringing a hosted job in line touches no other job. -/
theorem host_other {job id : String} (hne : id ≠ job) (s : Scheduler κ) (executor : String)
    (revision : UInt64) (now : Instant) :
    (s.host executor revision job now).1.registry.runs.get? id = s.registry.runs.get? id ∧
      (s.host executor revision job now).1.registry.jobs = s.registry.jobs := by
  have hhosts := host_hosts s executor revision job now
  generalize (s.host executor revision job now).1 = s' at hhosts ⊢
  cases hhosts with
  | unknown => exact ⟨rfl, rfl⟩
  | nothing => exact ⟨rfl, rfl⟩
  | elsewhere => simp [Registry.modifyRun, Table.get?_modify, hne]
  | adopt => simp [Registry.modifyRun, Table.get?_modify, hne]
  | expel => simp [Registry.modifyRun, Table.get?_modify, hne]

omit [Quantity κ] in
/-- A job that is registered can be stopped, whatever its run is at. -/
theorem stopRun_ok {job : String} {run : Run κ} (hrun : s.registry.runs.get? job = some run)
    (remove : Bool) (now : Instant) : (s.stopRun job remove now).2 = .ok () := by
  simp only [stopRun, hrun]
  repeat' split
  all_goals rfl

/-- A hosted job is brought in line without refusal: a stop is only tried of a registered job. -/
theorem host_ok (s : Scheduler κ) (executor : String) (revision : UInt64) (job : String)
    (now : Instant) : (s.host executor revision job now).2 = .ok () := by
  unfold host
  split
  · rfl
  rename_i run hrun
  split
  · rfl
  split
  · exact stopRun_ok hrun false now
  split
  · rfl
  · have hbound : (s.modifyRun job fun run => run.bind executor revision).registry.runs.get? job =
        some (run.bind executor revision) := by
      rw [modifyRun, Registry.get?_modifyRun hrun, if_pos rfl]
    exact stopRun_ok hbound false now

/-- Bring hosted jobs in line one after the other. -/
def hosting (s : Scheduler κ) (executor : String) (revision : UInt64) (now : Instant)
    (jobs : List String) : Scheduler κ :=
  jobs.foldl (fun s job => (s.host executor revision job now).1) s

/-- Hosted jobs are all brought in line. -/
theorem hostAll_eq (s : Scheduler κ) (executor : String) (revision : UInt64) (now : Instant)
    (jobs : List String) :
    s.hostAll executor revision now jobs = (s.hosting executor revision now jobs, .ok ()) := by
  induction jobs generalizing s with
  | nil => rfl
  | cons job jobs ih =>
    have hok := host_ok s executor revision job now
    rw [hostAll]
    split
    · rename_i s' hs'
      rw [ih, hosting, hosting, List.foldl_cons, hs']
    · rename_i e hs'
      rw [hs'] at hok
      cases hok

theorem hosting_course (routine : ∀ s d, d.IsRoutine → Q now s d) {executor : String}
    (adopt : ∀ s job, Q now s (.adopt job executor)) {e : Executor κ} (jobs : List String)
    (he : s.registry.executor? executor = some e) :
    Course Q s (s.hosting executor e.revision now jobs) := by
  induction jobs generalizing s with
  | nil => exact .refl s
  | cons job jobs ih =>
    -- the executors are as before, so the others are hosted under the same revision
    refine (host_course routine adopt he).trans (ih ?_)
    rw [Registry.executor?, host_executors]
    exact he

omit [Quantity κ] in
theorem mem_firstOccurrences {ids : List String} {id : String} :
    id ∈ firstOccurrences ids ↔ id ∈ ids := by
  suffices ∀ (ids seen : List String),
      id ∈ ids.foldl (fun seen id => if seen.contains id then seen else seen ++ [id]) seen ↔
        id ∈ seen ∨ id ∈ ids by
    simpa [firstOccurrences] using this ids []
  intro ids
  induction ids with
  | nil => simp
  | cons x ids ih =>
    intro seen
    rw [List.foldl_cons, ih]
    split
    · rename_i hx
      have : x ∈ seen := by simpa using hx
      grind
    · grind

omit [Quantity κ] in
theorem forget_eq {job : String} {run : Run κ} (hrun : s.registry.runs.get? job = some run) :
    s.forget job now =
      s.put job { run.release now with attempt := run.attempt + 1 } .existing now := by
  rw [forget, modifyRun_eq hrun, put]

omit [Quantity κ] in
theorem get?_forget (s : Scheduler κ) (job id : String) (now : Instant) :
    (s.forget job now).registry.runs.get? id =
      if id = job then (s.registry.runs.get? id).map
        fun run => { run.release now with attempt := run.attempt + 1 }
      else s.registry.runs.get? id :=
  Table.get?_modify _ _ _ _

omit [Quantity κ] in
theorem get?_forgetAll {ids : List String} (hnodup : ids.Nodup) (id : String) :
    (ids.foldl (·.forget · now) s).registry.runs.get? id =
      if id ∈ ids then (s.registry.runs.get? id).map
        fun run => { run.release now with attempt := run.attempt + 1 }
      else s.registry.runs.get? id := by
  induction ids generalizing s with
  | nil => simp
  | cons job ids ih =>
    obtain ⟨hout, hnodup⟩ := List.nodup_cons.1 hnodup
    rw [List.foldl_cons, ih hnodup, get?_forget]
    by_cases hid : id = job
    · subst hid
      simp [hout]
    · simp [hid]

/-- Forgetting several jobs.  What is forgotten is, each time, the run as it was at first. -/
theorem forgetAll_course (executor : String) {ids : List String} (hnodup : ids.Nodup)
    (hbound : ∀ id ∈ ids, ∃ run, s.registry.runs.get? id = some run ∧ run.stopping = false ∧
      run.executor = some executor)
    (hQ : ∀ s' id run, id ∈ ids → s.registry.runs.get? id = some run →
      s'.registry.runs.get? id = some run → s'.registry.jobs = s.registry.jobs →
      Q now s' (.forget id)) :
    Course Q s (ids.foldl (·.forget · now) s) := by
  induction ids generalizing s with
  | nil => exact .refl s
  | cons id ids ih =>
    obtain ⟨hout, hnodup⟩ := List.nodup_cons.1 hnodup
    obtain ⟨run, hrun, hst, he⟩ := hbound id List.mem_cons_self
    have hget : ∀ id' ∈ ids, (s.forget id now).registry.runs.get? id' =
        s.registry.runs.get? id' := by
      intro id' hid'
      have hne : id' ≠ id := fun h => hout (h ▸ hid')
      rw [get?_forget, if_neg hne]
    rw [List.foldl_cons]
    refine .trans (.single ?_ (hQ s id run List.mem_cons_self hrun hrun rfl)) (ih hnodup ?_ ?_)
    · rw [forget_eq hrun]
      exact .forget hrun hst he
    · intro id' hid'
      rw [hget id' hid']
      exact hbound id' (List.mem_cons_of_mem _ hid')
    · intro s' id' run' hid' hrun' hs' hjobs
      rw [hget id' hid'] at hrun'
      exact hQ s' id' run' (List.mem_cons_of_mem _ hid') hrun' hs' hjobs

omit [Quantity κ] in
theorem map_job_id (hkey : ∀ {id : String} {run : Run κ}, s.registry.runs.get? id = some run →
    run.job.id = id) : s.registry.allRuns.map (·.job.id) = s.registry.runs.ids := by
  simp only [Registry.allRuns, Table.values, Table.ids, List.map_map]
  exact List.map_congr_left fun e he => hkey (Table.mem_entries_iff.1 he)

omit [Quantity κ] in
/-- A job is missing exactly when its run is bound to the executor, stays, and is not listed. -/
theorem mem_missingFrom_iff (hkey : ∀ {id : String} {run : Run κ},
      s.registry.runs.get? id = some run → run.job.id = id) {executor id : String}
    {listed : List String} :
    id ∈ s.missingFrom executor listed ↔ ∃ run, s.registry.runs.get? id = some run ∧
      run.stopping = false ∧ run.executor = some executor ∧ id ∉ listed := by
  simp only [missingFrom, Registry.runsOn, List.mem_map, List.mem_filter, Run.isBoundTo,
    Bool.and_eq_true, Bool.not_eq_true', beq_iff_eq, List.contains_eq_mem,
    decide_eq_false_iff_not]
  constructor
  · rintro ⟨run, ⟨⟨hrun, he⟩, hst, hout⟩, rfl⟩
    obtain ⟨id, hid⟩ := Table.mem_values_iff.1 hrun
    obtain rfl := hkey hid
    exact ⟨run, hid, hst, he, hout⟩
  · rintro ⟨run, hrun, hst, he, hout⟩
    obtain rfl := hkey hrun
    exact ⟨run, ⟨⟨Table.mem_values hrun, he⟩, hst, hout⟩, rfl⟩

omit [Quantity κ] in
theorem missingFrom_nodup (hkey : ∀ {id : String} {run : Run κ},
      s.registry.runs.get? id = some run → run.job.id = id) (executor : String)
    (listed : List String) : (s.missingFrom executor listed).Nodup := by
  have hids : (s.registry.allRuns.map (·.job.id)).Nodup := by
    rw [map_job_id hkey]
    exact s.registry.runs.nodup
  exact hids.sublist ((List.filter_sublist.trans List.filter_sublist).map _)

/-- The scheduler once the jobs that an executor no longer hosts are pending again. -/
def unlisting (s : Scheduler κ) (executor : String) (listed : List String) (now : Instant) :
    Scheduler κ :=
  (s.missingFrom executor listed).foldl (·.forget · now) s

omit [Quantity κ] in
@[simp] theorem unlisting_executors (s : Scheduler κ) (executor : String) (listed : List String) :
    (s.unlisting executor listed now).registry.executors = s.registry.executors := by
  unfold unlisting
  induction s.missingFrom executor listed generalizing s with
  | nil => rfl
  | cons id ids ih => exact ih (s.forget id now)

omit [Quantity κ] in
@[simp] theorem unlisting_jobs (s : Scheduler κ) (executor : String) (listed : List String) :
    (s.unlisting executor listed now).registry.jobs = s.registry.jobs := by
  unfold unlisting
  induction s.missingFrom executor listed generalizing s with
  | nil => rfl
  | cons id ids ih => exact ih (s.forget id now)

omit [Quantity κ] in
/-- **The runs that are dropped** are those bound to the executor that stay there and are not
listed; they are pending afterwards. -/
theorem get?_unlisting (hkey : ∀ {id : String} {run : Run κ},
      s.registry.runs.get? id = some run → run.job.id = id) (executor : String)
    (listed : List String) (now : Instant) (id : String) :
    (s.unlisting executor listed now).registry.runs.get? id =
      (s.registry.runs.get? id).map fun run =>
        if run.stopping = false ∧ run.executor = some executor ∧ id ∉ listed then
          { run.release now with attempt := run.attempt + 1 }
        else run := by
  rw [unlisting, get?_forgetAll (missingFrom_nodup hkey _ _)]
  simp only [mem_missingFrom_iff hkey]
  cases hrun : s.registry.runs.get? id with
  | none => simp
  | some run => simp only [Option.some.injEq, exists_eq_left', Option.map_some]; split <;> rfl

/-- A report of a registered executor is taken in as a whole. -/
theorem jobsOnExecutor_eq {executor : String} {target : Executor κ} (jobs : List String)
    (htarget : s.registry.executor? executor = some target) :
    s.jobsOnExecutor executor jobs now =
      ((s.unlisting executor (firstOccurrences jobs) now).hosting executor target.revision now
        (firstOccurrences jobs), .ok ()) := by
  simp only [jobsOnExecutor, htarget, hostAll_eq, unlisting]

/-- What is dropped was bound to the executor, and is not listed. -/
theorem unlisting_course (hkey : ∀ {id : String} {run : Run κ},
      s.registry.runs.get? id = some run → run.job.id = id) (executor : String)
    (listed : List String)
    (forget : ∀ s' id run, run.stopping = false → run.executor = some executor → id ∉ listed →
      s.registry.runs.get? id = some run → s'.registry.runs.get? id = some run →
      s'.registry.jobs = s.registry.jobs → Q now s' (.forget id)) :
    Course Q s (s.unlisting executor listed now) := by
  refine forgetAll_course executor (missingFrom_nodup hkey _ _) (fun id hid => ?_) ?_
  · obtain ⟨run, hrun, hst, hexec, -⟩ := (mem_missingFrom_iff hkey).1 hid
    exact ⟨run, hrun, hst, hexec⟩
  · intro s' id run hid hrun hs' hjobs
    obtain ⟨run', hrun', hst, hexec, hout⟩ := (mem_missingFrom_iff hkey).1 hid
    obtain rfl : run = run' := by simpa [hrun] using hrun'
    exact forget s' id run hst hexec hout hrun hs' hjobs

theorem jobsOnExecutor_course (hkey : ∀ {id : String} {run : Run κ},
      s.registry.runs.get? id = some run → run.job.id = id)
    (routine : ∀ s d, d.IsRoutine → Q now s d) (executor : String) (jobs : List String)
    (forget : ∀ s' id run e, s.registry.executor? executor = some e → run.stopping = false →
      run.executor = some executor → id ∉ jobs → s.registry.runs.get? id = some run →
      s'.registry.runs.get? id = some run → s'.registry.jobs = s.registry.jobs →
      Q now s' (.forget id)) (adopt : ∀ s job, Q now s (.adopt job executor)) :
    Course Q s (s.jobsOnExecutor executor jobs now).1 := by
  cases he : s.registry.executor? executor with
  | none =>
    simp only [jobsOnExecutor, he]
    exact .refl s
  | some e =>
    have hforget : Course Q s (s.unlisting executor (firstOccurrences jobs) now) :=
      unlisting_course hkey executor _ fun s' id run hst hexec hout =>
        forget s' id run e he hst hexec (mt mem_firstOccurrences.2 hout)
    rw [jobsOnExecutor_eq jobs he]
    refine hforget.trans (hosting_course routine adopt _ ?_)
    rw [Registry.executor?, unlisting_executors]
    exact he

/-! ### One look at the plan -/

omit [Quantity κ] in
@[simp] theorem reportNoRoom_registry (s : Scheduler κ) (job : String) :
    (s.reportNoRoom job).registry = s.registry := by
  unfold reportNoRoom
  split <;> rfl

omit [Quantity κ] in
@[simp] theorem reportNoRoom_config (s : Scheduler κ) (job : String) :
    (s.reportNoRoom job).config = s.config := by
  unfold reportNoRoom
  split <;> rfl

omit [Quantity κ] in
theorem reportAll_same (jobs : List String) (s : Scheduler κ) :
    (jobs.foldl (·.reportNoRoom ·) s).registry = s.registry ∧
      (jobs.foldl (·.reportNoRoom ·) s).config = s.config := by
  induction jobs generalizing s with
  | nil => exact ⟨rfl, rfl⟩
  | cons job jobs ih => simpa using ih (s.reportNoRoom job)

theorem reportAll_course (routine : ∀ s d, d.IsRoutine → Q now s d) (jobs : List String) :
    Course Q s (jobs.foldl (·.reportNoRoom ·) s) := by
  induction jobs generalizing s with
  | nil => exact .refl s
  | cons job jobs ih =>
    have hfirst : Course Q s (s.reportNoRoom job) := by
      unfold reportNoRoom
      split
      · exact .refl s
      · exact .single (.say rfl) (routine _ _ trivial)
    exact hfirst.trans ih

theorem reconcile_course (routine : ∀ s d, d.IsRoutine → Q now s d)
    (start : ∀ s' job executor, s'.registry = s.registry → s'.config = s.config →
      Q now s' (.start job executor)) :
    Course Q s (s.reconcile now) := by
  have hsame := reportAll_same (plan s.registry s.config now).unplaceable s
  refine (reportAll_course routine (plan s.registry s.config now).unplaceable).trans ?_
  simp only [reconcile]
  generalize (plan s.registry s.config now).unplaceable.foldl (·.reportNoRoom ·) s = s₁
    at hsame ⊢
  split
  · rename_i job reason _
    exact .tail (stopRun_course routine s₁ job false) (routine _ .aside trivial)
      (.aside ⟨rfl, rfl, rfl, rfl, rfl, id⟩)
  · rename_i job executor hplan
    refine .tail (startRun_course ?_ (start s₁ job executor hsame.1 hsame.2))
      (routine _ .aside trivial) (.aside ⟨rfl, rfl, rfl, rfl, rfl, id⟩)
    rw [hsame.1, hsame.2]
    exact hplan
  · exact .single (.aside ⟨rfl, rfl, rfl, rfl, rfl, id⟩) (routine _ .aside trivial)

end Scheduler

/-! ### Whole advances -/

variable [Quantity κ] {s : Scheduler κ} {Q : Instant → Scheduler κ → Deed κ → Prop}

/-- `Q` holds of every deed by which the advance can take in what it starts with, in the states in
which it can occur. -/
structure Advance.GrantsIntake (Q : Instant → Scheduler κ → Deed κ → Prop) (s : Scheduler κ)
    (a : Advance κ) : Prop where
  routine : ∀ s d, d.IsRoutine → Q a.heard s d
  callBack : ∀ c, a.completion? = some c → Q a.heard s .callBack
  effect : ∀ c d, a.completion? = some c → s.effect? c = some d → Q a.heard s.heardBack d
  add : ∀ ticket e heard looked shown,
    a = .turn (.request ticket (.addExecutor e)) heard looked shown →
    Q heard s (.addExecutor e)
  change : ∀ ticket e heard looked shown,
    a = .turn (.request ticket (.changeExecutor e)) heard looked shown →
    Q heard s (.changeExecutor e)
  forget : ∀ ticket executor jobs heard looked shown,
    a = .turn (.request ticket (.jobsOnExecutor executor jobs)) heard looked shown →
    ∀ s' id run e', s.registry.executor? executor = some e' → run.stopping = false →
      run.executor = some executor → id ∉ jobs → s.registry.runs.get? id = some run →
      s'.registry.runs.get? id = some run → s'.registry.jobs = s.registry.jobs →
      Q heard s' (.forget id)
  adopt : ∀ ticket executor jobs heard looked shown,
    a = .turn (.request ticket (.jobsOnExecutor executor jobs)) heard looked shown →
    ∀ s' job, Q heard s' (.adopt job executor)
  redefine : ∀ ticket job heard looked shown,
    a = .turn (.request ticket (.changeJob job)) heard looked shown → Q heard s (.changeJob job)

/-- `Q` holds of every deed that can follow when the advance has taken in what it starts with. -/
structure Advance.GrantsSequel (Q : Instant → Scheduler κ → Deed κ → Prop) (s : Scheduler κ)
    (a : Advance κ) : Prop where
  later : ∀ s d, d.IsRoutine → Q a.looked s d
  start : ∀ e heard looked shown, a = .turn e heard looked shown →
    ∀ s' job executor, s'.registry = (s.accept e heard).1.registry →
      s'.config = (s.accept e heard).1.config → Q looked s' (.start job executor)

/-- `Q` holds of every deed that the advance can consist of, in the states in which it can occur. -/
structure Advance.Grants (Q : Instant → Scheduler κ → Deed κ → Prop) (s : Scheduler κ)
    (a : Advance κ) : Prop extends a.GrantsIntake Q s, a.GrantsSequel Q s

namespace Scheduler

theorem withRegistry_course {now : Instant} {d : Deed κ}
    {r : Except SchedulerError (Registry κ)}
    (h : ∀ r', r = .ok r' → Does now s d { s with registry := r' }) (hQ : Q now s d) :
    Course Q s (s.withRegistry r).1 := by
  cases r with
  | ok r' => exact .single (h r' rfl) hQ
  | error => exact .refl s

theorem complete_course {now : Instant} {c : Completion} (callBack : Q now s .callBack)
    (effect : ∀ d, s.effect? c = some d → Q now s.heardBack d) :
    Course Q s (s.complete c now) := by
  have hback : Course Q s s.heardBack := .single .callBack callBack
  rcases complete_eq s c now with ⟨-, heq⟩ | ⟨d, hd, hdoes⟩
  · rw [heq]
    exact hback
  · exact .tail hback (effect d hd) hdoes

variable {heard looked shown : Instant}

theorem handle_course (hkey : ∀ {id : String} {run : Run κ},
      s.registry.runs.get? id = some run → run.job.id = id) {ticket : Ticket}
    {command : Command κ}
    (h : (Advance.turn (.request ticket command) heard looked shown).GrantsIntake Q s) :
    Course Q s (s.handle command heard).1 := by
  have routine : ∀ s d, d.IsRoutine → Q heard s d := h.routine
  cases command with
  | addJob job =>
    simp only [handle]
    split
    · exact .refl s
    · rename_i r hr
      exact .single (.addJob hr) (routine _ _ trivial)
  | changeJob job =>
    simp only [handle]
    split
    · exact .refl s
    · rename_i r hr
      exact .single (.changeJob hr) (h.redefine ticket job heard looked shown rfl)
  | removeJob id => exact stopRun_course routine s id true
  | stopJob id => exact stopRun_course routine s id false
  | jobIsRunning id => exact confirmRun_course routine s id
  | addExecutor e =>
    exact withRegistry_course (fun r' hr => .addExecutor hr)
      (h.add ticket e heard looked shown rfl)
  | removeExecutor id =>
    exact withRegistry_course (d := .removeExecutor id) (fun r' hr => .removeExecutor hr)
      (routine _ _ trivial)
  | changeExecutor e =>
    refine withRegistry_course (fun r' hr => ?_) (h.change ticket e heard looked shown rfl)
    obtain ⟨revised, hc⟩ := Registry.of_changeExecutor_fst hr
    exact .changeExecutor hc
  | executorIsAlive id =>
    exact withRegistry_course (d := .keepAlive id) (fun r' hr => .keepAlive hr)
      (routine _ _ trivial)
  | jobsOnExecutor executor jobs =>
    exact jobsOnExecutor_course hkey routine executor jobs
      (h.forget ticket executor jobs heard looked shown rfl)
      (h.adopt ticket executor jobs heard looked shown rfl)
  | maxJobs count => exact .single (.limit count) (routine _ _ trivial)
  | refresh => exact .refl s
  | checkInvariants => exact .refl s

theorem accept_course (hkey : ∀ {id : String} {run : Run κ},
      s.registry.runs.get? id = some run → run.job.id = id) {e : Event κ}
    (h : (Advance.turn e heard looked shown).GrantsIntake Q s) :
    Course Q s (s.accept e heard).1 := by
  have aside : ∀ s' : Scheduler κ, s.SameBooks s' → Course Q s s' := fun s' hs =>
    .single (.aside hs) (h.routine s .aside trivial)
  cases e with
  | completion c => exact complete_course (h.callBack c rfl) fun d => h.effect c d rfl
  | request ticket command =>
    cases command with
    | checkInvariants => exact aside _ ⟨rfl, rfl, rfl, rfl, rfl, id⟩
    | _ => exact handle_course hkey h
  | refresh => exact .refl s
  | timer => exact aside _ ⟨rfl, rfl, rfl, rfl, rfl, id⟩

theorem answerAll_course {now : Instant} (routine : ∀ s d, d.IsRoutine → Q now s d)
    (tickets : List Ticket) (reply : Reply) : Course Q s (s.answerAll tickets reply) := by
  unfold answerAll
  induction tickets generalizing s with
  | nil => exact .refl s
  | cons ticket tickets ih =>
    exact .trans (.single (.say rfl) (routine _ _ trivial)) (ih (s := s.answer ticket reply))

theorem pass_course {e : Event κ} (h : (Advance.turn e heard looked shown).GrantsSequel Q s) :
    Course Q (s.accept e heard).1 (s.pass e heard looked shown) := by
  have routine : ∀ s d, d.IsRoutine → Q looked s d := h.later
  have hstart := h.start e heard looked shown rfl
  simp only [pass]
  generalize s.accept e heard = accepted at hstart ⊢
  obtain ⟨s₁, held⟩ := accepted
  have hready : Course Q s₁ { s₁ with refreshDue := false } :=
    .single (.aside ⟨rfl, rfl, rfl, rfl, rfl, id⟩) (routine _ .aside trivial)
  have hlook : Course Q s₁ (({ s₁ with refreshDue := false }.reconcile looked).publish shown) :=
    (hready.trans (reconcile_course routine hstart)).tail (routine _ .aside trivial)
      (.aside ⟨rfl, rfl, rfl, rfl, rfl, id⟩)
  cases held with
  | none => exact hlook
  | some held => exact hlook.tail (routine _ (.say _) trivial) (.say rfl)

theorem turnAt_course {e : Event κ} (h : (Advance.turn e heard looked shown).GrantsSequel Q s) :
    Course Q (s.accept e heard).1 (s.turnAt e heard looked shown) := by
  have routine : ∀ s d, d.IsRoutine → Q looked s d := h.later
  have hpass := pass_course h
  simp only [turnAt, answerChecks]
  split
  · exact hpass
  · have hready : Course Q (s.accept e heard).1
        { s.pass e heard looked shown with checksWaiting := [] } :=
      hpass.tail (routine _ .aside trivial) (.aside ⟨rfl, rfl, rfl, rfl, rfl, id⟩)
    exact hready.trans (answerAll_course routine _ _)

theorem drainPass_course (routine : ∀ s d, d.IsRoutine → Q looked s d) (s : Scheduler κ) :
    Course Q s (s.drainPass looked shown) := by
  have hstops : ∀ (jobs : List String) (s : Scheduler κ),
      Course Q s (jobs.foldl (fun s job => (s.stopRun job false looked).1) s) := by
    intro jobs
    induction jobs with
    | nil => exact .refl
    | cons job jobs ih => exact fun s => (stopRun_course routine s job false).trans (ih _)
  have hshown : Course Q s
      ((s.boundJobs.foldl (fun s job => (s.stopRun job false looked).1) s).publish shown) :=
    (hstops _ s).tail (routine _ .aside trivial) (.aside ⟨rfl, rfl, rfl, rfl, rfl, id⟩)
  simp only [drainPass]
  split
  · exact hshown.tail (routine _ .aside trivial) (.aside ⟨rfl, rfl, rfl, rfl, rfl, nofun⟩)
  · exact hshown

end Scheduler

/-- The part of an advance that comes before the plan is looked at is a chain of deeds. -/
theorem Advance.takeIn_course (hkey : ∀ {id : String} {run : Run κ},
      s.registry.runs.get? id = some run → run.job.id = id) {a : Advance κ}
    (h : a.GrantsIntake Q s) : Course Q s (a.takeIn s) := by
  cases a with
  | turn e heard looked shown => exact Scheduler.accept_course hkey h
  | leave queued looked shown => exact .refl s
  | drain c heard looked shown =>
    exact Scheduler.complete_course (h.callBack c rfl) fun d => h.effect c d rfl

/-- So is the rest of it. -/
theorem Advance.sequel_course {a : Advance κ} (h : a.GrantsSequel Q s) :
    Course Q (a.takeIn s) (a.apply s) := by
  cases a with
  | turn e heard looked shown => exact Scheduler.turnAt_course h
  | leave queued looked shown =>
    have routine : ∀ s d, d.IsRoutine → Q looked s d := h.later
    have hturned := Scheduler.answerAll_course (s := s) routine (queued ++ s.checksWaiting)
      (.error .shutdown)
    have hready : Course Q s { s.answerAll (queued ++ s.checksWaiting) (.error .shutdown) with
        stage := .draining, checksWaiting := [] } :=
      hturned.tail (routine _ .aside trivial) (.aside ⟨rfl, rfl, rfl, rfl, rfl, nofun⟩)
    exact hready.trans (Scheduler.drainPass_course routine _)
  | drain c heard looked shown => exact Scheduler.drainPass_course h.later _

/-- **Every advance is a chain of deeds**, each of which satisfies `Q` if the advance grants it. -/
theorem Advance.course (hkey : ∀ {id : String} {run : Run κ},
      s.registry.runs.get? id = some run → run.job.id = id) {a : Advance κ}
    (h : a.Grants Q s) : Course Q s (a.apply s) :=
  (Advance.takeIn_course hkey h.toGrantsIntake).trans (Advance.sequel_course h.toGrantsSequel)

end Dispatch
