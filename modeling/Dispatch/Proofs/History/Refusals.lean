import Dispatch.Proofs.History.Course
import Dispatch.Proofs.History.Replay
import Dispatch.Proofs.Numbers

/-!
# Refused commands

A command is refused or carried out, and several functions that carry one out have a refusal at the
end of a way on which they change something.  It is never reached: a report of an executor, for one,
is taken in as a whole or not at all (`Scheduler.jobsOnExecutor_eq`).

* `Scheduler.stopRun_refused`, `Scheduler.confirmRun_refused`, `Scheduler.withRegistry_refused`,
  `Scheduler.jobsOnExecutor_refused` : the refusals of each function, all made before anything is
  changed;
* `Scheduler.pass_refused` : a turn with a refused command does what it does without any, and says
  so;
* `refused_commands_change_nothing` : **refused commands change nothing**, in every state.
-/

namespace Dispatch

variable {κ : Type}

namespace Scheduler

variable {s : Scheduler κ} {job : String} {remove : Bool} {now : Instant} {e : SchedulerError}

theorem stopRun_refused (h : (s.stopRun job remove now).2 = .error e) :
    (s.stopRun job remove now).1 = s := by
  cases hrun : s.registry.runs.get? job with
  | none => simp only [stopRun, hrun]
  | some run =>
    rw [stopRun_ok hrun] at h
    cases h

theorem confirmRun_refused (h : (s.confirmRun job now).2 = .error e) :
    (s.confirmRun job now).1 = s := by
  unfold confirmRun at h ⊢
  split at h
  · rfl
  · split at h <;> cases h

theorem withRegistry_refused {r : Except SchedulerError (Registry κ)}
    (h : (s.withRegistry r).2 = .error e) : (s.withRegistry r).1 = s := by
  cases r with
  | ok => cases h
  | error => rfl

variable [Quantity κ]

/-- **A report is refused only for its executor**, and then nothing of it is taken in. -/
theorem jobsOnExecutor_refused {executor : String} {jobs : List String}
    (h : (s.jobsOnExecutor executor jobs now).2 = .error e) :
    e = .executorNotFound executor ∧ s.registry.executor? executor = none ∧
      (s.jobsOnExecutor executor jobs now).1 = s := by
  cases htarget : s.registry.executor? executor with
  | none =>
    simp only [jobsOnExecutor, htarget] at h ⊢
    exact ⟨(Except.error.inj h).symm, trivial, trivial⟩
  | some target =>
    rw [jobsOnExecutor_eq jobs htarget] at h
    cases h

/-! ### All commands -/

/-- A refused command leaves the scheduler as it was. -/
theorem handle_refused {command : Command κ} (h : (s.handle command now).2 = .error e) :
    (s.handle command now).1 = s := by
  cases command with
  | addJob job =>
    simp only [handle] at h ⊢
    split at h
    · rfl
    · cases h
  | changeJob job =>
    simp only [handle] at h ⊢
    split at h
    · rfl
    · cases h
  | removeJob id => exact stopRun_refused h
  | stopJob id => exact stopRun_refused h
  | jobIsRunning id => exact confirmRun_refused h
  | addExecutor target => exact withRegistry_refused h
  | removeExecutor id => exact withRegistry_refused h
  | changeExecutor target => exact withRegistry_refused h
  | executorIsAlive id => exact withRegistry_refused h
  | jobsOnExecutor executor jobs => exact (jobsOnExecutor_refused h).2.2
  | maxJobs count => cases h
  | refresh => cases h
  | checkInvariants => rfl

/-- A turn with a refused command does what a turn does that starts with nothing, and then answers
the request. -/
theorem pass_refused {command : Command κ} {ticket : Ticket} {heard looked shown : Instant}
    (hasked : command ≠ .checkInvariants) (h : (s.handle command heard).2 = .error e) :
    s.pass (.request ticket command) heard looked shown =
      (s.pass .refresh heard looked shown).answer ticket (.error e) := by
  have haccept : s.accept (.request ticket command) heard = (s, some (ticket, .error e)) := by
    have hsame := handle_refused h
    cases command with
    | checkInvariants => exact absurd rfl hasked
    | _ => simp only [accept, hsame, h]
  rw [pass, haccept]
  rfl

end Scheduler

open Scheduler

variable [Quantity κ]

/-- **Refused commands change nothing**: neither the registry nor the settings, nor the time
accounts, nor the number of calls under way, and nothing is said.  The report of an executor, which
goes through many runs, is refused only when the executor is not registered. -/
theorem refused_commands_change_nothing {s : Scheduler κ} {command : Command κ} {now : Instant}
    {e : SchedulerError} (h : (s.handle command now).2 = .error e) :
    (s.handle command now).1 = s ∧
      ∀ executor jobs, command = .jobsOnExecutor executor jobs →
        e = .executorNotFound executor ∧ s.registry.executor? executor = none := by
  refine ⟨handle_refused h, ?_⟩
  rintro executor jobs rfl
  obtain ⟨he, hnone, -⟩ := jobsOnExecutor_refused h
  exact ⟨he, hnone⟩

/-- One job runs on `A`, one is being stopped there, and one waits. -/
def threeJobs : Session ℚ :=
  (Session.play (fun _ _ => true) { scheduler := { config := startConfirms }, now := 0 }
    [(0, .request (.addExecutor { id := "A", capacity := 2 })),
      (0, .request (.addJob { id := "j1", cost := 1 })),
      (1, .answer 0 (.ok ())),
      (2, .request (.addJob { id := "j2", cost := 1 })),
      (3, .request (.stopJob "j2")),
      (4, .request (.addJob { id := "j3", cost := 5 }))]).get (by decide +kernel)

/-- `B` says that it hosts all three jobs, but it was never added. -/
theorem refused_commands_change_nothing_threeJobs :
    (threeJobs.scheduler.registry.allRuns.map fun run => (run.job.id, run.state)) =
        [("j1", .running), ("j2", .stopping), ("j3", .pending)] ∧
      (threeJobs.scheduler.handle (.jobsOnExecutor "B" ["j1", "j2", "j3"]) 5).2 =
        .error (.executorNotFound "B") ∧
      (threeJobs.scheduler.handle (.jobsOnExecutor "B" ["j1", "j2", "j3"]) 5).1 =
        threeJobs.scheduler := by
  have hrefused : (threeJobs.scheduler.handle (.jobsOnExecutor "B" ["j1", "j2", "j3"]) 5).2 =
      .error (.executorNotFound "B") := by decide +kernel
  exact ⟨by decide +kernel, hrefused, (refused_commands_change_nothing hrefused).1⟩

end Dispatch
