import Dispatch.Proofs.History.Positions
import Dispatch.Proofs.History.Replay
import Dispatch.Proofs.History.Turn
import Dispatch.Proofs.Numbers
import Dispatch.Proofs.Plan.Limits

/-!
# Starts are throttled

A run is started on an executor only while fewer runs than allowed are starting there, and long
enough after the last of them was started.  The check looks at usable executors only, but no other
deed makes a run one that is starting, and an executor that is paused, changed, removed or added
again keeps its runs, so the limits hold at every moment.

* `Does.startsLimited`, `Does.startsSpaced` : every deed keeps both limits on starts;
* `Scheduler.turnAt_withinCap`, `Scheduler.host_withinCap` : no more runs are started than the job
  cap allows after a planned start, and after a job that an executor hosts has been adopted;
* `starts_throttled` : **so it is in every session, in an advance, and at each step of a report**.
-/

namespace Dispatch

open Scheduler

/-! ### What a deed does to a sum over all runs -/

/-- The deed puts a run on an executor. -/
def Deed.Commits {κ : Type} : Deed κ → Prop
  | .start .. | .adopt .. => True
  | _ => False

section Sums

variable {κ M : Type} [Quantity κ] [AddCommMonoid M] [PartialOrder M] [IsOrderedAddMonoid M]
  {now : Instant} {s s' : Scheduler κ} {d : Deed κ} {w : Run κ → M}

/-- A burden grows only when a run is put on an executor. -/
theorem Does.tally_le (hdoes : Does now s d s') (hsound : s.registry.Sound) (hw : Burden w)
    (hd : ¬ d.Commits) : s'.registry.tally w ≤ s.registry.tally w := by
  cases hdoes with
  | aside hsame => rw [hsame.registry]
  | callBack => exact le_refl _
  | limit => exact le_refl _
  | say => exact le_refl _
  | addJob hr => exact (hw.addJob_eq hsound hr).le
  | changeJob hr => exact (hw.changeJob_eq hsound hr).le
  | addExecutor hr =>
    obtain ⟨-, -, rfl⟩ := Registry.of_addExecutor hr
    exact le_refl _
  | removeExecutor hr =>
    obtain rfl := Registry.of_removeExecutor hr
    exact le_refl _
  | changeExecutor hr =>
    obtain ⟨-, -, -, -, rfl⟩ := Registry.of_changeExecutor hr
    exact le_refl _
  | keepAlive hr =>
    obtain rfl := Registry.of_keepAlive hr
    exact le_refl _
  | start => exact absurd trivial hd
  | confirm hrun => exact Burden.modifyRun_le hrun (hw.confirm _ now)
  | mark hrun hst =>
    have hunstarted := (hsound.shaped hrun).unstarted_of_stopping hst
    exact hw.unstarted_le hsound hrun hunstarted
  | discard hrun => exact hw.removeRun_le hsound hrun
  | stop hrun => exact hw.unstarted_le hsound hrun rfl
  | release hrun => exact hw.unstarted_le hsound hrun rfl
  | settle hrun hst =>
    have hunstarted := (hsound.shaped hrun).unstarted_of_stopping hst
    simp only [report_registry, put_registry, noteStop_registry]
    exact hw.unstarted_le hsound hrun hunstarted
  | finish hrun =>
    simp only [drop_registry, noteStop_registry]
    exact hw.removeRun_le hsound hrun
  | forget hrun => exact hw.unstarted_le hsound hrun rfl
  | adopt => exact absurd trivial hd
  | expel _ hrun => exact hw.unstarted_le hsound hrun rfl

end Sums

variable {κ : Type}

/-- A run is starting on an executor, since an instant. -/
def Run.StartsOn (run : Run κ) (executor : String) (t : Instant) : Prop :=
  run.executor = some executor ∧ run.startedAt = some t ∧ run.ranAt = none ∧ run.stopping = false

/-- The same of a position. -/
def Position.StartsOn (p : Position) (executor : String) (t : Instant) : Prop :=
  p.executor = some executor ∧ p.startedAt = some t ∧ p.ranAt = none ∧ p.stopping = false

/-- A run that is starting after a deed was so before, or is started by it. -/
theorem Shifts.startsOn {now t : Instant} {s s' : Scheduler κ} {d : Deed κ} {id executor : String}
    {p : Position} (h : Shifts now s s' d) (hp : s'.registry.position? id = some p)
    (hon : p.StartsOn executor t) :
    s.registry.position? id = some p ∨ d = .start id executor ∧ t = now := by
  obtain ⟨hexec, hstarted, hran, hst⟩ := hon
  cases h with
  | same _ positions =>
    rw [positions] at hp
    exact .inl hp
  | fresh job _ positions =>
    rw [positions] at hp
    split at hp
    · obtain rfl := Option.some.inj hp
      cases hexec
    · exact .inl hp
  | gone job _ positions =>
    rw [positions] at hp
    split at hp
    · cases hp
    · exact .inl hp
  | shifted job p₀ p' call? positions old shift =>
    rw [positions] at hp
    split at hp
    · rename_i hid
      obtain rfl := Option.some.inj hp
      cases shift with
      | start target =>
        obtain rfl := Option.some.inj hexec
        exact .inr ⟨by rw [hid], (Option.some.inj hstarted).symm⟩
      | confirm => cases hran
      | stop => cases hstarted
      | release => cases hexec
      | settle => cases hexec
      | forget => cases hexec
      | adopt => cases hran
      | expel => cases hstarted
    · exact .inl hp

/-- On no executor are more runs starting than the settings allow. -/
def Scheduler.StartsLimited (s : Scheduler κ) : Prop :=
  ∀ executor, s.registry.startsOn executor ≤ s.config.simultaneousStarts

/-- Runs that are starting on one executor were started as far apart as the settings ask. -/
def Scheduler.StartsSpaced (s : Scheduler κ) : Prop :=
  ∀ executor id id' run run' t t', id ≠ id' → s.registry.runs.get? id = some run →
    s.registry.runs.get? id' = some run' → run.StartsOn executor t → run'.StartsOn executor t' →
    t + s.config.startGap ≤ t' ∨ t' + s.config.startGap ≤ t

/-- Both limits on starts are kept. -/
structure Scheduler.Throttled (s : Scheduler κ) : Prop where
  limited : s.StartsLimited
  spaced : s.StartsSpaced

/-- No more runs are started than the job cap allows, if there is one. -/
def Scheduler.WithinCap (s : Scheduler κ) : Prop :=
  0 < s.config.maxJobs → s.registry.startedCount ≤ s.config.maxJobs

variable [Quantity κ] {now : Instant} {s s' : Scheduler κ} {d : Deed κ}

/-- Only the job cap is ever set anew. -/
theorem Does.config_eq (hdoes : Does now s d s') :
    s'.config = { s.config with maxJobs := s'.config.maxJobs } := by
  cases hdoes with
  | aside hsame => rw [hsame.config]
  | settle => simp
  | finish => simp
  | _ => rfl

/-- The planner has seen that one more run may be started where it is started. -/
theorem Does.start_spec {job executor : String} (hdoes : Does now s (.start job executor) s')
    (hsound : s.registry.Sound) :
    s.config.capReached s.registry.startedCount = false ∧
      s.registry.startsOn executor < s.config.simultaneousStarts ∧
      (s.config.simultaneousStarts ≤ 1 ∨ ∀ run ∈ s.registry.carriedBy executor,
        run.ranAt = none → ∀ t, run.startedAt = some t → s.config.startGap ≤ now.since t) := by
  cases hdoes with
  | start he hdef hrun hplan =>
    obtain ⟨hcap, e, he, rfl, -, hstart⟩ :=
      place_mayStart hsound.executors (plan_start_pending hsound hrun hplan).2.2
    exact ⟨hcap, mayStart_iff.1 hstart⟩

/-- **No deed lets more runs start on an executor** than the settings allow. -/
theorem Does.startsLimited (hdoes : Does now s d s') (hsound : s.registry.Sound)
    (h : s.StartsLimited) : s'.StartsLimited := by
  intro executor
  rw [congrArg Config.simultaneousStarts hdoes.config_eq]
  have hbefore := h executor
  have hburden : Burden (Registry.startShare executor : Run κ → Nat) :=
    Registry.startShare_burden executor
  rw [Registry.startsOn_eq] at hbefore ⊢
  by_cases hd : d.Commits
  · have hstart := hdoes
    cases hdoes with
    | @start job target e definition run he hdef hrun hplan =>
      obtain ⟨-, hstarts, -⟩ := hstart.start_spec hsound
      have hunstarted := (hsound.shaped hrun).unstarted_of_pending
        (plan_start_pending hsound hrun hplan).1
      simp only [issue_registry, report_registry, nameExecutor_registry, put_registry]
      rw [hburden.commit_eq hrun hunstarted]
      by_cases hon : executor = target
      · -- the planner has seen that one more may start here
        subst hon
        rw [Registry.startsOn_eq] at hstarts
        have hone : Registry.startShare executor (run.start definition e now) ≤ 1 := by
          unfold Registry.startShare
          split <;> omega
        exact (Nat.add_le_add_left hone _).trans hstarts
      · have hnone : Registry.startShare executor (run.start definition e now) = 0 := by
          have hother : target ≠ executor := fun heq => hon heq.symm
          simp [Registry.startShare, Run.start, Run.isBoundTo,
            (Registry.mem_of_executor? he).2, hother]
        rw [hnone]
        exact hbefore
    | @adopt job target e run he hrun hst hexec hadmits =>
      have hunstarted :=
        (hsound.shaped hrun).unstarted_of_pending (Run.isPending_iff.2 ⟨hexec, hst⟩)
      simp only [put_registry]
      rw [hburden.commit_eq hrun hunstarted]
      -- an adopted run is running at once
      have hnone : Registry.startShare executor ((run.bind target e.revision).adopt now) = 0 := by
        simp [Registry.startShare, Run.adopt, Run.isStarting]
      rw [hnone]
      exact hbefore
    | _ => exact hd.elim
  · exact (hdoes.tally_le hsound hburden hd).trans hbefore

omit [Quantity κ] in
/-- A run that is starting is one of those that the executor carries. -/
theorem Run.StartsOn.mem_carriedBy {r : Registry κ} {id executor : String} {run : Run κ}
    {t : Instant} (h : run.StartsOn executor t) (hrun : r.runs.get? id = some run) :
    run ∈ r.carriedBy executor := by
  obtain ⟨hexec, hstarted, -, hst⟩ := h
  exact Registry.mem_carriedBy.2 ⟨Table.mem_values hrun, hst, hexec, by simp [hstarted]⟩

/-- Instants between which at least `gap` has elapsed are so far apart. -/
theorem apart_of_le_toNat {gap : Nat} {t now : Int} (h : gap ≤ (now - t).toNat) :
    t + gap ≤ now ∨ now + gap ≤ t := by omega

/-- A run is started at a distance from all that are starting on its executor. -/
theorem Does.start_gap {job id executor : String} {run : Run κ} {t : Instant}
    (hdoes : Does now s (.start job executor) s') (hsound : s.registry.Sound)
    (hrun : s.registry.runs.get? id = some run) (hon : run.StartsOn executor t) :
    t + s.config.startGap ≤ now ∨ now + s.config.startGap ≤ t := by
  obtain ⟨-, hfew, hgap⟩ := hdoes.start_spec hsound
  have hmem := hon.mem_carriedBy hrun
  obtain ⟨-, hstarted, hran, -⟩ := hon
  rcases hgap with hone | hgap
  · -- the executor may start one run at a time, and one is starting there
    have hpos : 0 < s.registry.startsOn executor :=
      List.countP_pos_iff.2 ⟨run, hmem, by simp [Run.isStarting, hstarted, hran]⟩
    exact absurd (hfew.trans_le hone) (Nat.not_lt.2 hpos)
  · exact apart_of_le_toNat (hgap run hmem hran t hstarted)

/-- **Every deed keeps starts on one executor apart.** -/
theorem Does.startsSpaced (hdoes : Does now s d s') (hsound : s.registry.Sound)
    (h : s.StartsSpaced) : s'.StartsSpaced := by
  intro executor id id' run run' t t' hne hrun hrun' hon hon'
  rw [congrArg Config.startGap hdoes.config_eq]
  have hshifts := hdoes.shifts hsound
  -- a run that is starting was so before the deed, in the same position, or is started by it
  have hold : ∀ {id : String} {run : Run κ} {t : Instant}, run.StartsOn executor t →
      s.registry.position? id = some run.position → ∃ run₀, s.registry.runs.get? id = some run₀ ∧
        run₀.StartsOn executor t := by
    intro id run t hon hposition
    obtain ⟨run₀, hrun₀, hsame⟩ := Registry.get?_of_position? hposition
    replace hon : run.position.StartsOn executor t := hon
    rw [← hsame] at hon
    exact ⟨run₀, hrun₀, hon⟩
  rcases hshifts.startsOn (Registry.position?_of_get? hrun) hon with hbefore | ⟨rfl, rfl⟩
  · obtain ⟨run₀, hrun₀, hon₀⟩ := hold hon hbefore
    rcases hshifts.startsOn (Registry.position?_of_get? hrun') hon' with hbefore' | ⟨rfl, rfl⟩
    · obtain ⟨run₀', hrun₀', hon₀'⟩ := hold hon' hbefore'
      exact h executor id id' run₀ run₀' t t' hne hrun₀ hrun₀' hon₀ hon₀'
    · exact hdoes.start_gap hsound hrun₀ hon₀
  · rcases hshifts.startsOn (Registry.position?_of_get? hrun') hon' with hbefore' | ⟨hsame, -⟩
    · obtain ⟨run₀', hrun₀', hon₀'⟩ := hold hon' hbefore'
      exact (hdoes.start_gap hsound hrun₀' hon₀').symm
    · exact absurd (Deed.start.inj hsame).1 hne

theorem Does.throttled (hdoes : Does now s d s') (hsound : s.registry.Sound) (h : s.Throttled) :
    s'.Throttled :=
  ⟨hdoes.startsLimited hsound h.limited, hdoes.startsSpaced hsound h.spaced⟩

/-! ### The job cap -/

omit [Quantity κ] in
/-- One more started run is within a cap that is not reached. -/
theorem Registry.startedCount_le_cap {r : Registry κ} {config : Config κ} {id : String}
    {run : Run κ} (hrun : r.runs.get? id = some run)
    (hfree : config.capReached r.startedCount = false) (hcap : 0 < config.maxJobs)
    (f : Run κ → Run κ) : (r.modifyRun id f).startedCount ≤ config.maxJobs := by
  have hroom := Config.capReached_eq_false_iff.1 hfree
  have hone := r.startedCount_modifyRun_le_succ hrun f
  omega

namespace Scheduler

/-- A turn that carries out a planned start stays within the job cap. -/
theorem turnAt_withinCap {e : Event κ} {heard looked shown : Instant} {job executor : String}
    (hsound : (s.accept e heard).1.registry.Sound)
    (hplan : (plan (s.accept e heard).1.registry (s.accept e heard).1.config looked).action =
      some (.start job executor)) : (s.turnAt e heard looked shown).WithinCap := by
  obtain ⟨-, before, run, after, hline, rfl, hplace, -⟩ := plan_start hplan
  have hrun : (s.accept e heard).1.registry.runs.get? run.job.id = some run :=
    hsound.get?_of_mem (mem_waitingLine.1 (by simp [hline])).1
  obtain ⟨definition, hdef⟩ := hsound.job_of_run hrun
  obtain ⟨hfree, target, hmem, rfl, -⟩ := place_mayStart hsound.executors hplace
  intro hcap
  rw [(turnAt_eq s e heard looked shown).2.1] at hcap ⊢
  rw [turnAt_starts hplan (hsound.executor?_eq hmem) hdef hrun]
  exact Registry.startedCount_le_cap hrun hfree hcap _

omit [Quantity κ] in
/-- A job that waited is on an executor afterwards, and is to stay there. -/
def Adopts (s s' : Scheduler κ) (executor job : String) : Prop :=
  ∃ run run', s.registry.runs.get? job = some run ∧ run.isPending = true ∧
    s'.registry.runs.get? job = some run' ∧ run'.executor = some executor ∧ run'.stopping = false

omit [Quantity κ] in
theorem adopts_iff {executor job : String} : s.Adopts s' executor job ↔
    (s.registry.runs.get? job).map (·.isPending) = some true ∧
      (s'.registry.runs.get? job).map (fun run => (run.executor, run.stopping)) =
        some (some executor, false) := by
  simp only [Option.map_eq_some_iff, Prod.mk.injEq]
  exact ⟨fun ⟨run, run', hrun, hpending, hrun', hon⟩ => ⟨⟨run, hrun, hpending⟩, run', hrun', hon⟩,
    fun ⟨⟨run, hrun, hpending⟩, run', hrun', hon⟩ => ⟨run, run', hrun, hpending, hrun', hon⟩⟩

/-- **A hosted job is adopted only within the job cap.** -/
theorem host_withinCap {executor job : String} {revision : UInt64}
    (h : s.Adopts (s.host executor revision job now).1 executor job) :
    (s.host executor revision job now).1.WithinCap := by
  obtain ⟨run, run', hrun, hpending, hrun', hexec', hst'⟩ := h
  obtain ⟨hexec, hst⟩ := Run.isPending_iff.1 hpending
  have hhosts := host_hosts s executor revision job now
  generalize (s.host executor revision job now).1 = s' at hhosts hrun' ⊢
  cases hhosts with
  | unknown hnone => simp [hnone] at hrun
  | nothing hfound hsettled =>
    obtain rfl := Option.some.inj (hrun.symm.trans hfound)
    simp [hst, hexec] at hsettled
  | elsewhere hfound _ hbound =>
    obtain rfl := Option.some.inj (hrun.symm.trans hfound)
    simp [hexec] at hbound
  | adopt hfound _ _ hadmits =>
    intro hcap
    simp only [admits, Bool.and_eq_true, Bool.not_eq_true'] at hadmits
    simp only [put_registry, put_config] at hcap ⊢
    exact Registry.startedCount_le_cap hfound hadmits.1 hcap _
  | expel hfound =>
    -- a job that is not admitted is on the way off at once
    rw [putStop_registry, Registry.get?_modifyRun hfound, if_pos rfl] at hrun'
    obtain rfl := Option.some.inj hrun'
    simp [Run.stop] at hst'

end Scheduler

/-! ### Histories -/

section Histories

variable {a : Advance κ} {P : Scheduler κ → Advance κ → Prop} {config : Config κ}
  {session : Session κ}

theorem Course.throttled {Q : Instant → Scheduler κ → Deed κ → Prop} (h : Course Q s s')
    (hsound : s.registry.Sound) (hs : s.Throttled) : s'.Throttled :=
  h.invariant_of_sound hsound hs fun _ _ _ _ hsound hthrottled _ hdoes =>
    hdoes.throttled hsound hthrottled

theorem Advance.apply_throttled (hsound : s.registry.Sound) (h : s.Throttled) :
    (a.apply s).Throttled :=
  (Advance.course hsound.run_key (a.grants_all s)).throttled hsound h

theorem ReachedBy.throttled (h : ReachedBy P config session) : session.scheduler.Throttled := by
  refine h.invariant (I := fun session => session.scheduler.Throttled)
    (fun _ _ => ⟨fun _ => Nat.zero_le _, fun _ _ _ _ _ _ _ _ hrun => by cases hrun⟩) ?_
  rintro session a _ hreach hthrottled - ⟨-, -, rest, -, rfl⟩
  have happlied := Advance.apply_throttled (a := a) hreach.sound hthrottled
  exact ⟨happlied.limited, happlied.spaced⟩

/-- Both limits are kept while the jobs that an executor reports are brought in line. -/
theorem Scheduler.hosting_throttled (hsound : s.registry.Sound) (h : s.Throttled)
    {executor : String} {e : Executor κ} (he : s.registry.executor? executor = some e)
    (now : Instant) (listed jobs : List String) :
    ((s.unlisting executor listed now).hosting executor e.revision now jobs).Throttled := by
  have hdropped : Course (fun _ _ _ => True) s (s.unlisting executor listed now) :=
    unlisting_course hsound.run_key executor listed fun _ _ _ _ _ _ _ _ _ => trivial
  have hthere : (s.unlisting executor listed now).registry.executor? executor = some e := by
    rw [Registry.executor?, unlisting_executors]
    exact he
  exact (hdropped.trans (hosting_course (fun _ _ _ => trivial) (fun _ _ => trivial) jobs
    hthere)).throttled hsound h

/-- **Starts are throttled at every moment**: in every session, when an advance has taken in what it
starts with, and afterwards.  After a planned start no more runs are started than the job cap
allows.  A report of what an executor hosts is taken in job by job: the limits hold at each step,
and no more runs are started than the job cap allows after each step by which a job is adopted. -/
theorem starts_throttled (h : Reachable config session) :
    session.scheduler.Throttled ∧ ∀ a : Advance κ,
      (a.takeIn session.scheduler).Throttled ∧ (a.apply session.scheduler).Throttled ∧
      (∀ e heard looked shown job executor, a = .turn e heard looked shown →
        (plan (a.takeIn session.scheduler).registry (a.takeIn session.scheduler).config
          looked).action = some (.start job executor) →
        (a.apply session.scheduler).WithinCap) ∧
      ∀ executor e jobs, a.command? = some (.jobsOnExecutor executor jobs) →
        session.scheduler.registry.executor? executor = some e →
        let listed := firstOccurrences jobs
        let dropped := (session.scheduler.missingFrom executor listed).foldl (·.forget · a.heard)
          session.scheduler
        let hosted := fun jobs => (dropped.hostAll executor e.revision a.heard jobs).1
        a.takeIn session.scheduler = hosted listed ∧
        ∀ before job after, listed = before ++ job :: after →
          hosted (before ++ [job]) = ((hosted before).host executor e.revision job a.heard).1 ∧
          (hosted before).Throttled ∧ (hosted (before ++ [job])).Throttled ∧
          ((hosted before).Adopts (hosted (before ++ [job])) executor job →
            (hosted (before ++ [job])).WithinCap) := by
  refine ⟨h.throttled, fun a => ⟨?_, Advance.apply_throttled h.sound h.throttled, ?_, ?_⟩⟩
  · exact (Advance.takeIn_course h.sound.run_key (a.grants_all _).toGrantsIntake).throttled h.sound
      h.throttled
  · rintro e heard looked shown job executor rfl hplan
    exact turnAt_withinCap (Advance.takeIn_sound (a := .turn e heard looked shown) h.sound) hplan
  · intro executor e jobs hcommand he listed dropped hosted
    have hhosted : ∀ jobs, hosted jobs = (session.scheduler.unlisting executor listed
        a.heard).hosting executor e.revision a.heard jobs := fun jobs => by
      simp only [hosted, hostAll_eq]
      rfl
    have hthrottled : ∀ jobs, (hosted jobs).Throttled := fun jobs => by
      rw [hhosted]
      exact hosting_throttled h.sound h.throttled he a.heard listed jobs
    refine ⟨?_, fun before job after _ => ?_⟩
    · have htaken : a.takeIn session.scheduler =
          (session.scheduler.jobsOnExecutor executor jobs a.heard).1 :=
        Advance.takeIn_command hcommand (by simp)
      rw [htaken, hhosted, jobsOnExecutor_eq jobs he]
    · have hnext : hosted (before ++ [job]) =
          ((hosted before).host executor e.revision job a.heard).1 := by
        simp only [hhosted, hosting, List.foldl_append, List.foldl_cons, List.foldl_nil]
      refine ⟨hnext, hthrottled _, hthrottled _, fun hadopts => ?_⟩
      rw [hnext] at hadopts ⊢
      exact host_withinCap hadopts

end Histories

/-- Settings under which two runs may be starting on one executor, five nanoseconds apart. -/
def pairwiseStarts : Config ℚ :=
  { balanceAt := 0, simultaneousStarts := 2, startGap := 5, maxJobs := 2 }

/-- Two jobs have been added, the second one too soon after the start of the first one. -/
def secondWaiting : Session ℚ :=
  (Session.play (fun _ _ => true) { scheduler := { config := pairwiseStarts }, now := 0 }
    [(0, .request (.addExecutor { id := "A", capacity := 10 })),
      (0, .request (.addJob { id := "j", cost := 1 })),
      (3, .request (.addJob { id := "k", cost := 1 }))]).get (by decide +kernel)

/-- Two runs are starting on an executor, the second one since the timer went off. -/
def pairStarting : Session ℚ :=
  (Session.play (fun _ _ => true) { scheduler := { config := pairwiseStarts }, now := 0 }
    [(0, .request (.addExecutor { id := "A", capacity := 10 })),
      (0, .request (.addJob { id := "j", cost := 1 })),
      (0, .request (.addJob { id := "k", cost := 1 })),
      (7, .timer)]).get (by decide +kernel)

/-- Both are still there, and apart, when the executor is removed.  A second job that waits is
adopted when the executor reports it, and makes the job cap full. -/
theorem starts_throttled_pairStarting :
    (∃ run run' : Run ℚ, pairStarting.scheduler.registry.runs.get? "j" = some run ∧
      pairStarting.scheduler.registry.runs.get? "k" = some run' ∧ run.StartsOn "A" 0 ∧
      run'.StartsOn "A" 7 ∧ ((0 : Instant) + 5 ≤ 7 ∨ (7 : Instant) + 5 ≤ 0) ∧
      ((Advance.turn (.request 0 (.removeExecutor "A")) 7 7 7).takeIn
        pairStarting.scheduler).registry.startsOn "A" ≤ 2) ∧
    ∃ s s' : Scheduler ℚ, s.Adopts s' "A" "k" ∧ s'.registry.startedCount ≤ 2 ∧
      (Advance.turn (.request 0 (.jobsOnExecutor "A" ["j", "k"])) 4 4 4).takeIn
        secondWaiting.scheduler = s' := by
  have hreached : Reachable pairwiseStarts pairStarting :=
    Session.play_reachedBy (fun _ _ _ => trivial) (.start 0 (by decide +kernel))
      (Option.some_get _).symm
  have hwaiting : Reachable pairwiseStarts secondWaiting :=
    Session.play_reachedBy (fun _ _ _ => trivial) (.start 0 (by decide +kernel))
      (Option.some_get _).symm
  constructor
  · obtain ⟨hnow, hlater⟩ := starts_throttled hreached
    have hgap : pairStarting.scheduler.config.startGap = 5 := by decide +kernel
    have hfound : ["j", "k"].map (fun job =>
        (pairStarting.scheduler.registry.runs.get? job).map fun run =>
          (run.executor, run.startedAt, run.ranAt, run.stopping)) =
        [some (some "A", some 0, none, false), some (some "A", some 7, none, false)] := by
      decide +kernel
    simp only [List.map_cons, List.map_nil, List.cons.injEq, Option.map_eq_some_iff, Prod.mk.injEq,
      and_true] at hfound
    obtain ⟨⟨run, hrun, hon⟩, run', hrun', hon'⟩ := hfound
    have hspaced := hnow.spaced "A" "j" "k" run run' 0 7 (by decide) hrun hrun' hon hon'
    rw [hgap] at hspaced
    have hfew := (hlater (.turn (.request 0 (.removeExecutor "A")) 7 7 7)).1.limited "A"
    exact ⟨run, run', hrun, hrun', hon, hon', hspaced, hfew.trans (by decide +kernel)⟩
  · have hthere : (secondWaiting.scheduler.registry.executor? "A").map (·.revision) = some 0 := by
      decide +kernel
    obtain ⟨e, he, hrevision⟩ := Option.map_eq_some_iff.1 hthere
    obtain ⟨htaken, hsteps⟩ := ((starts_throttled hwaiting).2
      (.turn (.request 0 (.jobsOnExecutor "A" ["j", "k"])) 4 4 4)).2.2.2 "A" e ["j", "k"] rfl he
    obtain ⟨-, -, -, hcap⟩ := hsteps ["j"] "k" [] rfl
    rw [hrevision] at htaken hcap
    refine ⟨_, _, ?adopts, (hcap ?adopts (by decide +kernel)).trans (by decide +kernel), htaken⟩
    exact Scheduler.adopts_iff.2 ⟨by decide +kernel, by decide +kernel⟩

end Dispatch
