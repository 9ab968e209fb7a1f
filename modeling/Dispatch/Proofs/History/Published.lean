import Dispatch.Proofs.History.Replay
import Dispatch.Proofs.History.Sound
import Dispatch.Proofs.History.Turn
import Dispatch.Proofs.Registry.Snapshot

/-!
# What is published of executors

The summaries are made anew at the end of every advance, from the tables as they are then.  Since
these are sound, the summaries say of each executor what the planner would find in the snapshot.

* `Scheduler.Shows` : the summaries published last are those of the tables at an instant;
* `Advance.apply_shows` : **every advance publishes the summaries anew**;
* `summaries_consistent` : **the snapshot and the summaries tell the same story** in every history,
  also when an event has just been taken in and the plan is looked at.
-/

namespace Dispatch

variable {κ : Type} [Quantity κ]

namespace Scheduler

/-- The summaries published last are those of the tables at an instant. -/
def Shows (s : Scheduler κ) (now : Instant) : Prop :=
  s.summaries = Dispatch.summaries s.registry s.config now

theorem pass_shows (s : Scheduler κ) (e : Event κ) (heard looked shown : Instant) :
    (s.pass e heard looked shown).Shows shown := by
  simp only [pass]
  generalize s.accept e heard = accepted
  obtain ⟨s₁, held⟩ := accepted
  cases held <;> rfl

/-- The answers to checks leave the tables as they are. -/
theorem turnAt_shows (s : Scheduler κ) (e : Event κ) (heard looked shown : Instant) :
    (s.turnAt e heard looked shown).Shows shown := by
  have hpass := pass_shows s e heard looked shown
  simp only [turnAt, answerChecks, answerAll_eq]
  split <;> exact hpass

theorem drainPass_shows (s : Scheduler κ) (looked shown : Instant) :
    (s.drainPass looked shown).Shows shown := by
  simp only [drainPass]
  split <;> rfl

end Scheduler

/-- **Every advance publishes the summaries anew**, as of the instant that the clock shows last. -/
theorem Advance.apply_shows (s : Scheduler κ) (a : Advance κ) : (a.apply s).Shows a.shown := by
  cases a with
  | turn e heard looked shown => exact s.turnAt_shows e heard looked shown
  | leave => exact Scheduler.drainPass_shows _ _ _
  | drain => exact Scheduler.drainPass_shows _ _ _

/-- **The snapshot and the summaries tell the same story**, in every session that is reached and at
every instant.  So they do in the midst of an advance, when the plan is looked at, and what the
advance publishes in the end are the summaries of the tables that it leaves. -/
theorem summaries_consistent {config : Config κ} {session : Session κ}
    (h : Reachable config session) :
    (∀ now, session.scheduler.registry.Consistent session.scheduler.config now) ∧
      ∀ a next, session.Step a next →
        (∀ now, (a.takeIn session.scheduler).registry.Consistent
          (a.takeIn session.scheduler).config now) ∧
        next.scheduler.summaries =
          summaries next.scheduler.registry next.scheduler.config next.now := by
  refine ⟨h.sound.consistent session.scheduler.config, fun a next hstep => ⟨?_, ?_⟩⟩
  · exact (Advance.takeIn_sound h.sound).consistent _
  · obtain ⟨-, -, rest, -, rfl⟩ := hstep
    exact a.apply_shows session.scheduler

/-- Settings under which executors have to report, and a start call that succeeds confirms that the
job runs. -/
def watched : Config ℚ := { balanceAt := 0, aliveDuration := 10, runningOnStart := true }

/-- Of the jobs on `A` one is being stopped, one runs and one is starting; `B` is paused, `C` has
not reported for long, and one job waits. -/
def threeExecutors : Session ℚ :=
  (Session.play (fun _ _ => true) { scheduler := { config := watched }, now := 0 }
    [(0, .request (.addExecutor { id := "A", capacity := 4 })),
      (0, .request (.addJob { id := "j1", cost := 1 })),
      (2, .answer 0 (.ok ())),
      (2, .request (.addJob { id := "j2", cost := 1 })),
      (3, .answer 0 (.ok ())),
      (4, .request (.stopJob "j1")),
      (4, .request (.addExecutor { id := "B", capacity := 4, paused := true })),
      (4, .request (.addExecutor { id := "C", capacity := 4, keptAliveAt := some (-20) })),
      (5, .request (.addJob { id := "j3", cost := 1 })),
      (6, .request (.addJob { id := "j4", cost := 9 }))]).get (by decide +kernel)

theorem summaries_consistent_threeExecutors :
    let r := threeExecutors.scheduler.registry
    let settings := threeExecutors.scheduler.config
    (summaries r settings 6).map (fun s => (s.id, s.load, s.alive, s.paused)) =
      [("A", 2, true, false), ("B", 0, true, true), ("C", 0, false, false)] ∧
    (summaries r settings 6).map (fun s => (s.starting, s.running, s.stopping)) =
      [(1, 1, 1), (0, 0, 0), (0, 0, 0)] ∧
    (Snapshot.ofRegistry r 6 settings.aliveWindow).map
        (fun c => (c.executor, c.load, c.startingCount, c.lastStart)) = [("A", 2, 1, some 5)] ∧
    r.Consistent settings 6 := by
  intro r settings
  have hreach : Reachable watched threeExecutors :=
    Session.play_reachedBy (fun _ _ _ => trivial) (.start 0 (by decide +kernel))
      (Option.some_get _).symm
  exact ⟨by decide +kernel, by decide +kernel, by decide +kernel, (summaries_consistent hreach).1 6⟩

end Dispatch
