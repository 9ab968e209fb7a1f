import Dispatch.Proofs.History.Action

/-!
# What is kept of the run of a job

A job is added only by a request to add it, and gone only by a request to remove it; until a
removal is over its run is leaving.  Every other operation keeps this of the run of a job
(`Registry.Keeps`): when there is none there is none afterwards, one that stays goes on to stay, and
one that is leaving is the same afterwards.

* `Scheduler.stopRun_keeps`, `Scheduler.complete_keeps`, `Scheduler.jobsOnExecutor_keeps`,
  `Scheduler.handle_keeps` : one lemma for each operation;
* `Advance.takeIn_keeps`, `Advance.apply_keeps` : a whole advance, when it does not add or remove
  the job and does not end its stop.
-/

namespace Dispatch

open Scheduler

variable {κ : Type}

/-- On the way off its executor in order to be removed. -/
def Run.IsLeaving (run : Run κ) : Prop := run.stopping = true ∧ run.removing = true

instance (run : Run κ) : Decidable run.IsLeaving := inferInstanceAs (Decidable (_ ∧ _))

theorem Run.not_isLeaving_of_free {run : Run κ} (h : run.stopping = false) : ¬ run.IsLeaving := by
  simp [IsLeaving, h]

/-- What is kept of the run of a job: that there is none, that it stays, and all of it when it is
leaving. -/
structure Registry.Keeps (id : String) (r r' : Registry κ) : Prop where
  absent : r.runs.get? id = none → r'.runs.get? id = none
  staying : ∀ run, r.runs.get? id = some run → run.removing = false →
    ∃ run', r'.runs.get? id = some run' ∧ run'.ordinal = run.ordinal ∧ run'.removing = false
  leaving : ∀ run, r.runs.get? id = some run → run.IsLeaving → r'.runs.get? id = some run

namespace Registry.Keeps

variable {r r' r'' : Registry κ} {id job : String} {f : Run κ → Run κ} {run run' : Run κ}

theorem of_get?_eq (h : r'.runs.get? id = r.runs.get? id) : Keeps id r r' :=
  ⟨fun hnone => h.trans hnone, fun run hrun hstays => ⟨run, h.trans hrun, rfl, hstays⟩,
    fun _ hrun _ => h.trans hrun⟩

theorem of_runs_eq (h : r'.runs = r.runs) : Keeps id r r' := of_get?_eq (by rw [h])

theorem refl (id : String) (r : Registry κ) : Keeps id r r := of_get?_eq rfl

theorem trans (h : Keeps id r r') (h' : Keeps id r' r'') : Keeps id r r'' where
  absent hnone := h'.absent (h.absent hnone)
  staying run hrun hstays := by
    obtain ⟨run', hrun', hord, hstays'⟩ := h.staying run hrun hstays
    obtain ⟨run'', hrun'', hord', hstays''⟩ := h'.staying run' hrun' hstays'
    exact ⟨run'', hrun'', hord'.trans hord, hstays''⟩
  leaving run hrun hleaves := h'.leaving run (h.leaving run hrun hleaves) hleaves

/-- A run that is not leaving may become another one that stays if it stayed. -/
theorem of_replaced (hrun : r.runs.get? id = some run) (hrun' : r'.runs.get? id = some run')
    (hleaves : run.IsLeaving → run' = run) (hordinal : run'.ordinal = run.ordinal)
    (hstays : run.removing = false → run'.removing = false) : Keeps id r r' := by
  refine ⟨fun hnone => ?_, fun run₀ hrun₀ hstays₀ => ?_, fun run₀ hrun₀ hleaves₀ => ?_⟩
  · rw [hrun] at hnone
    cases hnone
  · obtain rfl : run = run₀ := Option.some.inj (hrun.symm.trans hrun₀)
    exact ⟨run', hrun', hordinal, hstays hstays₀⟩
  · obtain rfl : run = run₀ := Option.some.inj (hrun.symm.trans hrun₀)
    rw [hrun', hleaves hleaves₀]

/-- A run may be changed in the same way. -/
theorem modifyRun (h : ∀ run, r.runs.get? job = some run → (run.IsLeaving → f run = run) ∧
      (f run).ordinal = run.ordinal ∧ (run.removing = false → (f run).removing = false)) :
    Keeps id r (r.modifyRun job f) := by
  cases hrun : r.runs.get? job with
  | none =>
    refine of_get?_eq ?_
    rw [Registry.modifyRun, Table.get?_modify]
    split
    · rename_i hid
      rw [hid, hrun, Option.map_none]
    · rfl
  | some run =>
    obtain ⟨hleaves, hordinal, hstays⟩ := h run hrun
    have hget : (r.modifyRun job f).runs.get? id =
        if id = job then some (f run) else r.runs.get? id := Registry.get?_modifyRun hrun f
    by_cases hid : id = job
    · subst hid
      rw [if_pos rfl] at hget
      exact of_replaced hrun hget hleaves hordinal hstays
    · exact of_get?_eq (by rw [hget, if_neg hid])

/-- A run that is not on the way off may become another one. -/
theorem replaceRun (hrun : r.runs.get? job = some run) (hfree : ¬ run.IsLeaving)
    (hordinal : run'.ordinal = run.ordinal)
    (hstays : run.removing = false → run'.removing = false) :
    Keeps id r (r.modifyRun job fun _ => run') := by
  refine modifyRun fun run₀ hrun₀ => ?_
  obtain rfl : run = run₀ := Option.some.inj (hrun.symm.trans hrun₀)
  exact ⟨fun hleaves => absurd hleaves hfree, hordinal, hstays⟩

/-- Another job may be forgotten. -/
theorem removeRun (h : job ≠ id) : Keeps id r (r.removeRun job) := by
  refine of_get?_eq ?_
  rw [Registry.removeRun, Table.get?_erase, if_neg (Ne.symm h)]

end Registry.Keeps

open Registry (Keeps)

namespace Scheduler

variable {s s' : Scheduler κ} {id job executor : String} {now : Instant} {remove : Bool}

/-- A stop keeps every run, but the one that it is to remove. -/
theorem stopRun_keeps (h : remove = true → job ≠ id) :
    Keeps id s.registry (s.stopRun job remove now).1.registry := by
  have hhalts := stopRun_halts s job remove now
  generalize (s.stopRun job remove now).1 = s' at hhalts ⊢
  cases hhalts with
  | nothing => exact .refl id _
  | mark _ _ hasked =>
    refine .of_get?_eq ?_
    rw [modifyRun_registry, Registry.modifyRun, Table.get?_modify, if_neg (Ne.symm (h hasked))]
  | discard _ _ _ hasked => exact .removeRun (h hasked)
  | stop hrun hst =>
    cases remove with
    | false => exact .replaceRun hrun (Run.not_isLeaving_of_free hst) rfl fun _ => rfl
    | true =>
      refine .of_get?_eq ?_
      rw [putStop_registry, Registry.modifyRun, Table.get?_modify, if_neg (Ne.symm (h rfl))]

/-- A run that an executor no longer hosts is not leaving, and it stays. -/
theorem forgetAll_keeps {jobs : List String} (hfree : ∀ job ∈ jobs, ∀ run,
      s.registry.runs.get? job = some run → run.stopping = false) :
    Keeps id s.registry (jobs.foldl (·.forget · now) s).registry := by
  induction jobs generalizing s with
  | nil => exact .refl id _
  | cons job jobs ih =>
    have hfirst : Keeps id s.registry (s.forget job now).registry := .modifyRun fun run hrun =>
      ⟨fun hleaves =>
        absurd hleaves (Run.not_isLeaving_of_free (hfree job List.mem_cons_self run hrun)),
        rfl, fun h => h⟩
    refine hfirst.trans (ih fun job' hjob' run' hrun' => ?_)
    have hget : (s.forget job now).registry.runs.get? job' = _ :=
      Table.get?_modify s.registry.runs job job' _
    rw [hget] at hrun'
    split at hrun'
    · -- what is forgotten once is no more on the way off than it was
      obtain ⟨run, hrun, rfl⟩ := Option.map_eq_some_iff.1 hrun'
      exact hfree job' (List.mem_cons_of_mem _ hjob') run hrun
    · exact hfree job' (List.mem_cons_of_mem _ hjob') run' hrun'

variable [Quantity κ]

theorem confirmRun_keeps : Keeps id s.registry (s.confirmRun job now).1.registry := by
  rcases confirmRun_does s job now with heq | hdoes
  · rw [heq]
    exact .refl id _
  · generalize (s.confirmRun job now).1 = s' at hdoes ⊢
    cases hdoes with
    | confirm hrun hst => exact .replaceRun hrun (Run.not_isLeaving_of_free hst) rfl fun h => h

/-- A call that comes back keeps every run, but the one whose stop is over and that is to go. -/
theorem complete_keeps {c : Completion} (h : s.effect? c ≠ some (.finish id)) :
    Keeps id s.registry (s.complete c now).registry := by
  rcases complete_eq s c now with ⟨-, heq⟩ | ⟨d, hd, hdoes⟩
  · rw [heq]
    exact .refl id _
  obtain ⟨run, hrun, -, hreturns⟩ := effect?_eq_some_iff.1 hd
  generalize s.complete c now = s' at hdoes ⊢
  cases hreturns with
  | confirm _ _ _ free =>
    cases hdoes with
    | @confirm _ run' hrun' =>
      obtain rfl : run = run' := Option.some.inj (hrun.symm.trans hrun')
      exact .replaceRun hrun (Run.not_isLeaving_of_free free) rfl fun h => h
  | release _ _ _ free =>
    cases hdoes with
    | @release _ run' _ hrun' =>
      obtain rfl : run = run' := Option.some.inj (hrun.symm.trans hrun')
      exact .replaceRun hrun (Run.not_isLeaving_of_free free) rfl fun h => h
  | finish =>
    have hother : c.job ≠ id := by
      rintro rfl
      exact h hd
    cases hdoes with
    | finish =>
      rw [drop_registry, noteStop_registry]
      exact .removeRun hother
  | settle _ _ staying =>
    have hfree : ¬ run.IsLeaving := by simp [Run.IsLeaving, staying]
    cases hdoes with
    | @settle _ run' _ hrun' =>
      obtain rfl : run = run' := Option.some.inj (hrun.symm.trans hrun')
      rw [report_registry, put_registry, noteStop_registry]
      exact .replaceRun hrun hfree rfl fun h => h

/-! ### Commands -/

theorem host_keeps {revision : UInt64} :
    Keeps id s.registry (s.host executor revision job now).1.registry := by
  have hhosts := host_hosts s executor revision job now
  generalize (s.host executor revision job now).1 = s' at hhosts ⊢
  cases hhosts with
  | unknown => exact .refl id _
  | nothing => exact .refl id _
  | elsewhere hrun hst => exact .replaceRun hrun (Run.not_isLeaving_of_free hst) rfl fun _ => rfl
  | adopt hrun hst => exact .replaceRun hrun (Run.not_isLeaving_of_free hst) rfl fun h => h
  | expel hrun hst => exact .replaceRun hrun (Run.not_isLeaving_of_free hst) rfl fun _ => rfl

theorem hosting_keeps {revision : UInt64} (jobs : List String) (s : Scheduler κ) :
    Keeps id s.registry (s.hosting executor revision now jobs).registry := by
  induction jobs generalizing s with
  | nil => exact .refl id _
  | cons job jobs ih => exact .trans host_keeps (ih _)

theorem jobsOnExecutor_keeps (hsound : s.registry.Sound) (executor : String)
    (jobs : List String) :
    Keeps id s.registry (s.jobsOnExecutor executor jobs now).1.registry := by
  cases he : s.registry.executor? executor with
  | none =>
    simp only [jobsOnExecutor, he]
    exact .refl id _
  | some target =>
    rw [jobsOnExecutor_eq jobs he]
    refine .trans (forgetAll_keeps fun job hjob run hrun => ?_) (hosting_keeps _ _)
    obtain ⟨run', hrun', hst, -⟩ := (mem_missingFrom_iff hsound.run_key).1 hjob
    rw [hrun', Option.some.injEq] at hrun
    exact hrun ▸ hst

/-- A new definition goes to a run that is pending, and such a run is not leaving. -/
theorem changeJob_keeps {r r' : Registry κ} {definition : Job κ}
    (h : r.changeJob definition = .ok r') : Keeps id r r' := by
  obtain ⟨old, -, -, rfl⟩ := Registry.of_changeJob h
  have hruns : Keeps id r (r.modifyRun definition.id fun run => if run.isPending then
      { run with job := { definition with revision := old.revision + 1 } } else run) := by
    refine .modifyRun fun run _ => ?_
    cases hpending : run.isPending with
    | false => exact ⟨fun _ => rfl, rfl, fun h => h⟩
    | true =>
      have hfree := Run.not_isLeaving_of_free (Run.isPending_iff.1 hpending).2
      exact ⟨fun hleaves => absurd hleaves hfree, rfl, fun h => h⟩
  exact hruns.trans (.of_runs_eq rfl)

omit [Quantity κ] in
theorem withRegistry_keeps {r : Except SchedulerError (Registry κ)}
    (h : ∀ r', r = .ok r' → Keeps id s.registry r') :
    Keeps id s.registry (s.withRegistry r).1.registry := by
  cases r with
  | ok r' => exact h r' rfl
  | error => exact .refl id _

/-- **A command keeps the run of a job** that it does not add or remove. -/
theorem handle_keeps (hsound : s.registry.Sound) {command : Command κ}
    (hadds : ∀ job, command = .addJob job → job.id = id → (s.handle command now).2 ≠ .ok ())
    (hremoves : command = .removeJob id → (s.handle command now).2 ≠ .ok ()) :
    Keeps id s.registry (s.handle command now).1.registry := by
  cases command with
  | addJob job =>
    cases hr : s.registry.addJob job with
    | error =>
      simp only [handle, hr]
      exact .refl id _
    | ok r =>
      have hother : job.id ≠ id := fun hid => hadds job rfl hid (by simp [handle, hr])
      obtain ⟨-, -, rfl⟩ := Registry.of_addJob hr
      simp only [handle, hr]
      refine .of_get?_eq ?_
      rw [nameJob_registry, enter_registry, Table.get?_addNew, if_neg (Ne.symm hother),
        Option.or_none]
  | removeJob job =>
    by_cases hid : job = id
    · subst hid
      have hrefused := hremoves rfl
      cases hrun : s.registry.runs.get? job with
      | none =>
        simp only [handle, stopRun, hrun]
        exact .refl job _
      | some run =>
        refine absurd ?_ hrefused
        simp only [handle, stopRun, hrun]
        repeat' split
        all_goals rfl
    · exact stopRun_keeps fun _ => hid
  | stopJob job => exact stopRun_keeps fun h => absurd h Bool.false_ne_true
  | changeJob job =>
    cases hr : s.registry.changeJob job with
    | error =>
      simp only [handle, hr]
      exact .refl id _
    | ok r =>
      simp only [handle, hr]
      exact changeJob_keeps hr
  | jobIsRunning job => exact confirmRun_keeps
  | addExecutor e =>
    refine withRegistry_keeps fun r' hr => ?_
    obtain ⟨-, -, rfl⟩ := Registry.of_addExecutor hr
    exact .of_runs_eq rfl
  | removeExecutor executor =>
    refine withRegistry_keeps fun r' hr => ?_
    rw [Registry.of_removeExecutor hr]
    exact .of_runs_eq rfl
  | changeExecutor e =>
    refine withRegistry_keeps fun r' hr => ?_
    obtain ⟨revised, hc⟩ := Registry.of_changeExecutor_fst hr
    obtain ⟨-, -, -, -, rfl⟩ := Registry.of_changeExecutor hc
    exact .of_runs_eq rfl
  | executorIsAlive executor =>
    refine withRegistry_keeps fun r' hr => ?_
    rw [Registry.of_keepAlive hr]
    exact .of_runs_eq rfl
  | jobsOnExecutor executor jobs => exact jobsOnExecutor_keeps hsound executor jobs
  | maxJobs count => exact .refl id _
  | refresh => exact .refl id _
  | checkInvariants => exact .refl id _

omit [Quantity κ] in
/-- **What is done about the plan keeps every run.** -/
theorem Pursues.keeps {calls : List (Call κ)} (h : s.Pursues now calls s') :
    Keeps id s.registry s'.registry := by
  rcases h.runs id with hsame | ⟨call, hcall, rfl, hleft⟩
  · exact .of_get?_eq hsame
  · cases h.acts call hcall with
    | stop run found placed _ left =>
      have hfree := Run.not_isLeaving_of_free placed.2
      refine .of_replaced found hleft (fun hleaves => absurd hleaves hfree) ?_ fun _ => ?_
      · rw [left]
        rfl
      · rw [left]
        rfl
    | start run _ _ found pending _ left =>
      have hfree := Run.not_isLeaving_of_free (Run.isPending_iff.1 pending).2
      refine .of_replaced found hleft (fun hleaves => absurd hleaves hfree) ?_ fun _ => ?_
      · rw [left]
        rfl
      · rw [left]
        rfl

end Scheduler

/-! ### Advances -/

namespace Advance

variable [Quantity κ] {s : Scheduler κ} {a : Advance κ} {id : String}

/-- A request to add a job of this id is accepted. -/
def Adds (s : Scheduler κ) (a : Advance κ) (id : String) : Prop :=
  ∃ job, a.command? = some (.addJob job) ∧ job.id = id ∧
    (s.handle (.addJob job) a.heard).2 = .ok ()

/-- A request to remove the job is accepted. -/
def Removes (s : Scheduler κ) (a : Advance κ) (id : String) : Prop :=
  a.command? = some (.removeJob id) ∧ (s.handle (.removeJob id) a.heard).2 = .ok ()

/-- A stop call for the job comes back. -/
def EndsStop (a : Advance κ) (id : String) : Prop :=
  ∃ c, a.completion? = some c ∧ c.kind = .stop ∧ c.job = id

theorem takeIn_keeps (hsound : s.registry.Sound) (hadds : ¬ a.Adds s id)
    (hremoves : ¬ a.Removes s id)
    (hends : ∀ c, a.completion? = some c → s.effect? c ≠ some (.finish id)) :
    Keeps id s.registry (a.takeIn s).registry := by
  have hhandle : ∀ command, a.command? = some command →
      Keeps id s.registry (s.handle command a.heard).1.registry := by
    intro command hcommand
    refine handle_keeps hsound ?_ ?_
    · rintro job rfl hid haccepted
      exact hadds ⟨job, hcommand, hid, haccepted⟩
    · rintro rfl haccepted
      exact hremoves ⟨hcommand, haccepted⟩
  cases a with
  | turn e heard looked shown =>
    cases e with
    | completion c => exact complete_keeps (hends c rfl)
    | request ticket command =>
      cases command with
      | checkInvariants => exact .refl id _
      | _ => exact hhandle _ rfl
    | refresh => exact .refl id _
    | timer => exact .refl id _
  | leave => exact .refl id _
  | drain c => exact complete_keeps (hends c rfl)

/-- What an advance does once it has taken in what it starts with keeps every run. -/
theorem sequel_keeps (hsound : s.registry.Sound) :
    Keeps id (a.takeIn s).registry (a.apply s).registry := by
  obtain ⟨calls, hpursues⟩ := a.pursues hsound
  exact hpursues.keeps

/-- **An advance keeps the run of a job** that it does not add or remove and whose stop it does not
end. -/
theorem apply_keeps (hsound : s.registry.Sound) (hadds : ¬ a.Adds s id)
    (hremoves : ¬ a.Removes s id)
    (hends : ∀ c, a.completion? = some c → s.effect? c ≠ some (.finish id)) :
    Keeps id s.registry (a.apply s).registry :=
  (takeIn_keeps hsound hadds hremoves hends).trans (sequel_keeps hsound)

end Advance

end Dispatch
