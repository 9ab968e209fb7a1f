import Dispatch.Proofs.History.Replay
import Dispatch.Proofs.History.Sound
import Dispatch.Proofs.Plan.Starting

/-!
# Starts that bring about stops

In any state that is reached, a start that is planned can be carried out, and what the plan says at
the same instant once it is:

* `start_then_stop_iff` : **it says stop exactly when a run on a paused executor costs more than the
  start leaves of the room that counts for it**, and then it names such a run;
* `start_then_stop` : a history in which a run that drains is stopped only because a job is started,
  although there is room for both.
-/

namespace Dispatch

open Scheduler

/-- A planned start is carried out at once. -/
theorem PlannedStart.startRun_eq {s : Scheduler ℚ} {now : Instant} {job : String} {run : Run ℚ}
    {definition : Job ℚ} {target : Executor ℚ}
    (h : PlannedStart s.registry s.config now job run definition target) :
    (s.startRun job target.id now).2 = .ok () ∧
      (s.startRun job target.id now).1.registry =
        s.registry.withStart job run definition target now ∧
      (s.startRun job target.id now).1.config = s.config := by
  simp only [startRun, h.sound.executor?_eq h.offered, h.defined, h.registered]
  exact ⟨trivial, rfl, rfl⟩

/-- **What the plan says just after a start.**  In a state that is reached, also when an event has
just been taken in, a planned start is carried out, and the plan at the same instant then names no
stop but one of a run that drains on a paused executor; and it does so exactly when such a run costs
more than is left elsewhere, of which the start has taken `Capacity.takenBy`. -/
theorem start_then_stop_iff {config : Config ℚ} {session : Session ℚ}
    (h : Reachable config session) (a : Advance ℚ) {now : Instant} {job executor : String}
    (hplan : (plan (a.takeIn session.scheduler).registry (a.takeIn session.scheduler).config
      now).action = some (.start job executor)) :
    let s := a.takeIn session.scheduler
    let s' := (s.startRun job executor now).1
    ∃ run definition target, s.registry.runs.get? job = some run ∧
      s.registry.jobs.get? job = some definition ∧
      s.registry.executor? executor = some target ∧ (s.startRun job executor now).2 = .ok () ∧
      (∀ id reason, (plan s'.registry s'.config now).action = some (.stop id reason) →
        reason = .executorPaused ∧ id ≠ job ∧
          ∃ drained e, drained.job.id = id ∧ s.registry.Drains drained e) ∧
      ((∃ id reason, (plan s'.registry s'.config now).action = some (.stop id reason)) ↔
        ∃ drained e, s.registry.Drains drained e ∧
          s.registry.elsewhere s.config now e.id -
            (Capacity.ofExecutor s.registry target).takenBy definition run + Quantity.tolerance <
            drained.job.cost) := by
  intro s s'
  have hsound : s.registry.Sound := Advance.takeIn_sound h.sound
  obtain ⟨run, definition, target, hrun, -, hdef, htarget⟩ := plan_start_registered hsound hplan
  obtain ⟨hoffered, rfl⟩ := Registry.mem_of_executor? htarget
  have hstart : PlannedStart s.registry s.config now job run definition target :=
    ⟨hsound, hrun, hdef, hoffered, hplan⟩
  obtain ⟨hok, hregistry, hconfig⟩ := hstart.startRun_eq
  refine ⟨run, definition, target, hrun, hdef, htarget, hok, ?_, ?_⟩
  · rw [hregistry, hconfig]
    intro id reason hstop
    obtain ⟨hreason, hne, drained, e, hid, hdrains, -⟩ := hstart.of_plan_stop hstop
    exact ⟨hreason, hne, drained, e, hid, hdrains⟩
  · rw [hregistry, hconfig]
    exact hstart.plan_stop_iff

/-- Settings under which a job may stay on a paused executor for five seconds. -/
def lenient : Config ℚ := { balanceAt := 0, runningOnStart := true, slack := 5000000000 }

/-- A job of cost 4 runs on a paused executor, and another executor is free. -/
def draining (capacity : ℚ) : Option (Session ℚ) :=
  Session.play (fun _ _ => true) { scheduler := { config := lenient }, now := 0 }
    [(0, .request (.addExecutor { id := "A", capacity := 10 })),
      (0, .request (.addExecutor { id := "B", capacity })),
      (0, .request (.addJob { id := "j1", cost := 4 })),
      (0, .answer 0 (.ok ())),
      (0, .request (.changeExecutor { id := "A", capacity := 10, paused := true }))]

/-- A second job of cost 4 is added a second later. -/
def joining : Advance ℚ :=
  .turn (.request 0 (.addJob { id := "j2", cost := 4 })) 1000000000 1000000000 1000000000

/-- With room for twelve, the start of the second job leaves the first one where it is. -/
def roomy : Session ℚ := (draining 12).get (by decide +kernel)

theorem roomy_reachable : Reachable lenient roomy :=
  Session.play_reachedBy (fun _ _ _ => trivial) (.start 0 (by decide +kernel))
    (Option.some_get _).symm

theorem start_then_stop_iff_roomy :
    ∃ run definition target,
      (joining.takeIn roomy.scheduler).registry.executor? "B" = some target ∧
        ∀ drained e, (joining.takeIn roomy.scheduler).registry.Drains drained e →
          ¬ (joining.takeIn roomy.scheduler).registry.elsewhere
            (joining.takeIn roomy.scheduler).config 1000000000 e.id -
            (Capacity.ofExecutor (joining.takeIn roomy.scheduler).registry target).takenBy
              definition run + Quantity.tolerance < drained.job.cost := by
  have hplan : (plan (joining.takeIn roomy.scheduler).registry
      (joining.takeIn roomy.scheduler).config 1000000000).action = some (.start "j2" "B") := by
    decide +kernel
  have hnone : (plan ((joining.takeIn roomy.scheduler).startRun "j2" "B" 1000000000).1.registry
      ((joining.takeIn roomy.scheduler).startRun "j2" "B" 1000000000).1.config
      1000000000).action = none := by decide +kernel
  obtain ⟨run, definition, target, -, -, htarget, -, -, hiff⟩ :=
    start_then_stop_iff roomy_reachable joining hplan
  refine ⟨run, definition, target, htarget, fun drained e hdrains hless => ?_⟩
  obtain ⟨id, reason, hstop⟩ := hiff.2 ⟨drained, e, hdrains, hless⟩
  rw [hnone] at hstop
  cases hstop

/-- With room for ten, which is enough for both, the first one is stopped for it. -/
def tight : Session ℚ := (draining 10).get (by decide +kernel)

theorem tight_reachable : Reachable lenient tight :=
  Session.play_reachedBy (fun _ _ _ => trivial) (.start 0 (by decide +kernel))
    (Option.some_get _).symm

theorem start_then_stop :
    Reachable lenient tight ∧
      (plan (joining.takeIn tight.scheduler).registry (joining.takeIn tight.scheduler).config
        1000000000).action = some (.start "j2" "B") ∧
      (plan ((joining.takeIn tight.scheduler).startRun "j2" "B" 1000000000).1.registry
        ((joining.takeIn tight.scheduler).startRun "j2" "B" 1000000000).1.config
        1000000000).action = some (.stop "j1" .executorPaused) :=
  ⟨tight_reachable, by decide +kernel, by decide +kernel⟩

end Dispatch
