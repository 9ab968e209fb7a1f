import Dispatch.Proofs.History.Course

/-!
# What a turn comes to

A turn takes in its event, looks at the plan once and carries out at most one action.  What it
leaves of the registry and the settings depends only on what the plan says then
(`Advance.planned`):

* `Scheduler.turnAt_rests`, `Scheduler.turnAt_stops`, `Scheduler.turnAt_starts` : the registry after
  a turn whose plan has no action, a stop or a start;
* `Scheduler.turnAt_idle` : the registry after a turn that leaves nothing to be done at once;
* `Scheduler.drainPass_eq` : what is left by a look at the runs while the loop drains;
* `Advance.apply_executors` : no advance changes an executor after it has taken in its event.
-/

namespace Dispatch

variable {κ : Type} [Quantity κ]

/-- What the plan says in a turn. -/
def Advance.planned (s : Scheduler κ) : Advance κ → Option Action
  | .turn e heard looked _ =>
    (plan (s.accept e heard).1.registry (s.accept e heard).1.config looked).action
  | _ => none

namespace Scheduler

variable {s : Scheduler κ} {e : Event κ} {now heard looked shown : Instant}

theorem reconcile_idle (h : (s.reconcile now).refreshDue = false) :
    (plan s.registry s.config now).action = none ∧ (s.reconcile now).registry = s.registry ∧
      (s.reconcile now).config = s.config ∧
      (s.reconcile now).wakeAt = (plan s.registry s.config now).wakeAt := by
  have hsame := reportAll_same (plan s.registry s.config now).unplaceable s
  simp only [reconcile] at h ⊢
  generalize (plan s.registry s.config now).unplaceable.foldl (·.reportNoRoom ·) s = s₁
    at h hsame ⊢
  split at h
  · cases h
  · cases h
  · rename_i hidle
    exact ⟨hidle, hsame.1, hsame.2, rfl⟩

theorem reconcile_rests (hplan : (plan s.registry s.config now).action = none) :
    (s.reconcile now).registry = s.registry := by
  have hsame := (reportAll_same (plan s.registry s.config now).unplaceable s).1
  simp only [reconcile, hplan]
  exact hsame

/-- A planned stop is carried out. -/
theorem reconcile_stops {job executor : String} {reason : StopReason} {run : Run κ}
    (hplan : (plan s.registry s.config now).action = some (.stop job reason))
    (hrun : s.registry.runs.get? job = some run) (hst : run.stopping = false)
    (hexec : run.executor = some executor) :
    (s.reconcile now).registry = s.registry.modifyRun job fun _ => run.stop false now := by
  have hsame := (reportAll_same (plan s.registry s.config now).unplaceable s).1
  simp only [reconcile, hplan]
  generalize (plan s.registry s.config now).unplaceable.foldl (·.reportNoRoom ·) s = s₁
    at hsame ⊢
  rw [← hsame] at hrun ⊢
  rw [stopRun_bound hrun hst (by rw [hexec]; rfl), putStop_registry]

/-- A planned start is carried out. -/
theorem reconcile_starts {job executor : String} {target : Executor κ} {definition : Job κ}
    {run : Run κ} (hplan : (plan s.registry s.config now).action = some (.start job executor))
    (he : s.registry.executor? executor = some target)
    (hdef : s.registry.jobs.get? job = some definition)
    (hrun : s.registry.runs.get? job = some run) :
    (s.reconcile now).registry =
      s.registry.modifyRun job fun _ => run.start definition target now := by
  have hsame := (reportAll_same (plan s.registry s.config now).unplaceable s).1
  simp only [reconcile, hplan]
  generalize (plan s.registry s.config now).unplaceable.foldl (·.reportNoRoom ·) s = s₁
    at hsame ⊢
  rw [← hsame] at he hdef hrun
  simp only [startRun, he, hdef, hrun]
  rw [← hsame]
  rfl

omit [Quantity κ] in
theorem stopRun_config (s : Scheduler κ) (job : String) (remove : Bool) :
    (s.stopRun job remove now).1.config = s.config := by
  unfold stopRun
  repeat' split
  all_goals rfl

omit [Quantity κ] in
theorem startRun_same (s : Scheduler κ) (job executor : String) :
    (s.startRun job executor now).1.config = s.config ∧
      (s.startRun job executor now).1.registry.executors = s.registry.executors := by
  unfold startRun
  split <;> exact ⟨rfl, rfl⟩

/-- One look at the plan leaves the settings and the executors as they are. -/
theorem reconcile_same (s : Scheduler κ) (now : Instant) :
    (s.reconcile now).config = s.config ∧
      (s.reconcile now).registry.executors = s.registry.executors := by
  have hsame := reportAll_same (plan s.registry s.config now).unplaceable s
  simp only [reconcile]
  generalize (plan s.registry s.config now).unplaceable.foldl (·.reportNoRoom ·) s = s₁ at hsame ⊢
  rw [← hsame.1, ← hsame.2]
  split
  · exact ⟨stopRun_config s₁ _ _, stopRun_executors s₁ _ _⟩
  · exact startRun_same s₁ _ _
  · exact ⟨rfl, rfl⟩

omit [Quantity κ] in
theorem answerAll_eq (s : Scheduler κ) (tickets : List Ticket) (reply : Reply) :
    s.answerAll tickets reply =
      { s with outbox := s.outbox ++ tickets.map fun ticket => .reply ticket reply } := by
  unfold answerAll
  induction tickets generalizing s with
  | nil => simp
  | cons ticket tickets ih =>
    rw [List.foldl_cons, ih]
    simp [answer, emit]

/-- The checks of the registry that are answered at the end of a turn. -/
def checksDue (s : Scheduler κ) : List Ticket := if s.refreshDue then [] else s.checksWaiting

theorem answerChecks_eq (s : Scheduler κ) :
    s.answerChecks.registry = s.registry ∧ s.answerChecks.config = s.config ∧
      s.answerChecks.refreshDue = s.refreshDue ∧
      s.answerChecks.outbox = s.outbox ++ s.checksDue.map fun ticket =>
        .reply ticket (s.registry.verify s.config) := by
  cases hdue : s.refreshDue with
  | true => simp [answerChecks, checksDue, hdue]
  | false => simp [answerChecks, answerAll_eq, checksDue, hdue]

theorem pass_eq (s : Scheduler κ) (e : Event κ) (heard looked shown : Instant) :
    (s.pass e heard looked shown).registry =
        ({ (s.accept e heard).1 with refreshDue := false }.reconcile looked).registry ∧
      (s.pass e heard looked shown).config =
        ({ (s.accept e heard).1 with refreshDue := false }.reconcile looked).config ∧
      (s.pass e heard looked shown).refreshDue =
        ({ (s.accept e heard).1 with refreshDue := false }.reconcile looked).refreshDue := by
  simp only [pass]
  generalize s.accept e heard = accepted
  obtain ⟨s₁, held⟩ := accepted
  cases held <;> exact ⟨rfl, rfl, rfl⟩

/-- A turn is one look at the plan of what the event has left. -/
theorem turnAt_eq (s : Scheduler κ) (e : Event κ) (heard looked shown : Instant) :
    (s.turnAt e heard looked shown).registry =
        ({ (s.accept e heard).1 with refreshDue := false }.reconcile looked).registry ∧
      (s.turnAt e heard looked shown).config = (s.accept e heard).1.config ∧
      (s.turnAt e heard looked shown).refreshDue =
        ({ (s.accept e heard).1 with refreshDue := false }.reconcile looked).refreshDue := by
  obtain ⟨hreg, hconf, hdue, -⟩ := answerChecks_eq (s.pass e heard looked shown)
  obtain ⟨hreg', hconf', hdue'⟩ := pass_eq s e heard looked shown
  rw [turnAt, hreg, hconf, hdue, hreg', hconf', hdue']
  exact ⟨rfl, (reconcile_same _ looked).1, rfl⟩

/-- A turn that leaves nothing to be done at once leaves the registry as the event left it. -/
theorem turnAt_idle (h : (s.turnAt e heard looked shown).refreshDue = false) :
    (s.turnAt e heard looked shown).registry = (s.accept e heard).1.registry := by
  obtain ⟨hreg, -, hdue⟩ := turnAt_eq s e heard looked shown
  rw [hdue] at h
  rw [hreg]
  exact (reconcile_idle h).2.1

section Planned

variable {job executor : String} {run : Run κ}

theorem turnAt_rests
    (hplan : (plan (s.accept e heard).1.registry (s.accept e heard).1.config looked).action =
      none) :
    (s.turnAt e heard looked shown).registry = (s.accept e heard).1.registry :=
  (turnAt_eq s e heard looked shown).1.trans
    (reconcile_rests (s := { (s.accept e heard).1 with refreshDue := false }) hplan)

theorem turnAt_stops {reason : StopReason}
    (hplan : (plan (s.accept e heard).1.registry (s.accept e heard).1.config looked).action =
      some (.stop job reason))
    (hrun : (s.accept e heard).1.registry.runs.get? job = some run) (hst : run.stopping = false)
    (hexec : run.executor = some executor) :
    (s.turnAt e heard looked shown).registry =
      (s.accept e heard).1.registry.modifyRun job fun _ => run.stop false looked :=
  (turnAt_eq s e heard looked shown).1.trans
    (reconcile_stops (s := { (s.accept e heard).1 with refreshDue := false }) hplan hrun hst hexec)

theorem turnAt_starts {target : Executor κ} {definition : Job κ}
    (hplan : (plan (s.accept e heard).1.registry (s.accept e heard).1.config looked).action =
      some (.start job executor))
    (he : (s.accept e heard).1.registry.executor? executor = some target)
    (hdef : (s.accept e heard).1.registry.jobs.get? job = some definition)
    (hrun : (s.accept e heard).1.registry.runs.get? job = some run) :
    (s.turnAt e heard looked shown).registry =
      (s.accept e heard).1.registry.modifyRun job fun _ => run.start definition target looked :=
  (turnAt_eq s e heard looked shown).1.trans
    (reconcile_starts (s := { (s.accept e heard).1 with refreshDue := false }) hplan he hdef hrun)

end Planned

/-! ### Draining -/

omit [Quantity κ] in
theorem stopRun_stage (s : Scheduler κ) (job : String) (remove : Bool) :
    (s.stopRun job remove now).1.stage = s.stage := by
  unfold stopRun
  repeat' split
  all_goals rfl

/-- Stop several jobs, one after the other. -/
def stopAll (s : Scheduler κ) (jobs : List String) (now : Instant) : Scheduler κ :=
  jobs.foldl (fun s job => (s.stopRun job false now).1) s

omit [Quantity κ] in
theorem stopAll_same (s : Scheduler κ) (jobs : List String) (now : Instant) :
    (s.stopAll jobs now).stage = s.stage ∧
      (s.stopAll jobs now).registry.executors = s.registry.executors := by
  induction jobs generalizing s with
  | nil => exact ⟨rfl, rfl⟩
  | cons job jobs ih =>
    obtain ⟨hstage, hexecutors⟩ := ih (s.stopRun job false now).1
    exact ⟨hstage.trans (stopRun_stage s job false),
      hexecutors.trans (stopRun_executors s job false)⟩

omit [Quantity κ] in
/-- Jobs that are only stopped stay registered. -/
theorem stopRun_jobs (s : Scheduler κ) (job : String) :
    (s.stopRun job false now).1.registry.jobs = s.registry.jobs := by
  unfold stopRun
  repeat' split
  all_goals first | rfl | contradiction

omit [Quantity κ] in
theorem stopAll_jobs (s : Scheduler κ) (jobs : List String) (now : Instant) :
    (s.stopAll jobs now).registry.jobs = s.registry.jobs := by
  induction jobs generalizing s with
  | nil => rfl
  | cons job jobs ih => exact (ih (s.stopRun job false now).1).trans (stopRun_jobs s job)

/-- **One look at the runs while draining** stops those that are bound, and the loop ends with it
when no call is under way then. -/
theorem drainPass_eq (s : Scheduler κ) (looked shown : Instant) :
    (s.drainPass looked shown).registry = (s.stopAll s.boundJobs looked).registry ∧
      (s.drainPass looked shown).issued = (s.stopAll s.boundJobs looked).issued ∧
      (s.drainPass looked shown).stage =
        if (s.drainPass looked shown).inFlight = 0 then .ended else s.stage := by
  have hstage := (stopAll_same s s.boundJobs looked).1
  simp only [drainPass]
  split
  · exact ⟨rfl, rfl, rfl⟩
  · exact ⟨rfl, rfl, hstage⟩

/-- The return of a call says nothing about calls and leaves the loop at what it is at. -/
theorem complete_same (s : Scheduler κ) (c : Completion) (now : Instant) :
    (s.complete c now).stage = s.stage ∧ (s.complete c now).issued = s.issued := by
  rcases complete_eq s c now with ⟨-, heq⟩ | ⟨d, hd, hdoes⟩
  · rw [heq]
    exact ⟨rfl, rfl⟩
  obtain ⟨run, -, -, hreturns⟩ := effect?_eq_some_iff.1 hd
  generalize s.complete c now = s' at hdoes ⊢
  cases hreturns with
  | confirm =>
    cases hdoes
    exact ⟨rfl, by simp; rfl⟩
  | release =>
    cases hdoes
    exact ⟨rfl, by simp; rfl⟩
  | finish =>
    cases hdoes with
    | @finish _ _ result => exact ⟨by cases result <;> rfl, by simp; rfl⟩
  | settle =>
    cases hdoes with
    | @settle _ _ result => exact ⟨by cases result <;> rfl, by simp; rfl⟩

/-- Once it is left, the loop never serves again. -/
theorem drainPass_onward (h : s.stage ≠ .serving) :
    (s.drainPass looked shown).stage ≠ .serving := by
  rw [(drainPass_eq s looked shown).2.2]
  split
  · simp
  · exact h

/-- It ends when no call is under way. -/
theorem drainPass_ended_iff (h : s.stage = .draining) :
    (s.drainPass looked shown).stage = .ended ↔ (s.drainPass looked shown).inFlight = 0 := by
  rw [(drainPass_eq s looked shown).2.2, h]
  split <;> simp [*]

theorem leaveAt_stage {queued : List Ticket} :
    (s.leaveAt queued looked shown).stage ≠ .serving := by
  unfold leaveAt
  exact drainPass_onward (by simp)

theorem leaveAt_ended_iff {queued : List Ticket} :
    (s.leaveAt queued looked shown).stage = .ended ↔
      (s.leaveAt queued looked shown).inFlight = 0 := by
  unfold leaveAt
  exact drainPass_ended_iff rfl

theorem drainTurnAt_stage {c : Completion} (h : s.stage = .draining) :
    (s.drainTurnAt c heard looked shown).stage ≠ .serving := by
  unfold drainTurnAt
  exact drainPass_onward (by simp [(complete_same s c heard).1, h])

theorem drainTurnAt_ended_iff {c : Completion} (h : s.stage = .draining) :
    (s.drainTurnAt c heard looked shown).stage = .ended ↔
      (s.drainTurnAt c heard looked shown).inFlight = 0 := by
  unfold drainTurnAt
  exact drainPass_ended_iff ((complete_same s c heard).1.trans h)

theorem drainPass_jobs (s : Scheduler κ) (looked shown : Instant) :
    (s.drainPass looked shown).registry.jobs = s.registry.jobs := by
  rw [(drainPass_eq s looked shown).1]
  exact stopAll_jobs s s.boundJobs looked

theorem drainPass_executors (s : Scheduler κ) (looked shown : Instant) :
    (s.drainPass looked shown).registry.executors = s.registry.executors := by
  rw [(drainPass_eq s looked shown).1]
  exact (stopAll_same s s.boundJobs looked).2

end Scheduler

open Scheduler

/-- **Executors change only when an event is taken in.** -/
theorem Advance.apply_executors (s : Scheduler κ) (a : Advance κ) :
    (a.apply s).registry.executors = (a.takeIn s).registry.executors := by
  cases a with
  | turn e heard looked shown =>
    rw [Advance.apply, (turnAt_eq s e heard looked shown).1]
    exact (reconcile_same _ looked).2
  | leave queued looked shown =>
    simp only [Advance.apply, leaveAt, answerAll_eq]
    exact drainPass_executors _ looked shown
  | drain c heard looked shown => exact drainPass_executors _ looked shown

end Dispatch
