import Dispatch.Proofs.Tables
import Dispatch.Simulation.Hosting
import Mathlib.Algebra.GroupWithZero.Nat

/-!
# What simulated executors host

What a call makes of the jobs that each executor hosts, and when nothing is hosted at all.
-/

namespace Dispatch.Simulation

variable {κ : Type} {s : Simulation} {executor job : String}

theorem mem_jobsOn_iff :
    job ∈ s.jobsOn executor ↔ ∃ jobs, (executor, jobs) ∈ s.hosted.entries ∧ job ∈ jobs := by
  simp only [jobsOn, Table.mem_entries_iff]
  cases s.hosted.get? executor <;> simp

/-- **A stop takes its job off its executor**, unless it is cancelled, and does nothing else. -/
theorem mem_jobsOn_stop {run : Run κ} {cancelled : Bool} :
    job ∈ (s.call .stop run cancelled).1.jobsOn executor ↔
      job ∈ s.jobsOn executor ∧
        ¬ (cancelled = false ∧ run.executor = some executor ∧ job = run.job.id) := by
  cases cancelled with
  | true => simp [call, latency?]
  | false =>
    cases hexec : run.executor with
    | none => simp [call, latency?, finish, hexec]
    | some there =>
      simp only [call, latency?, finish, hexec, Bool.false_eq_true, if_false]
      rw [jobsOn, jobsOn, Table.get?_modify]
      by_cases hhere : executor = there
      · subst hhere
        cases s.hosted.get? executor <;> simp
      · simp [hhere, Ne.symm hhere]

/-- A start that does not fail puts its job on its executor, and does nothing else. -/
theorem mem_jobsOn_start {run : Run κ} (hworks : s.config.startsFail = false) :
    job ∈ (s.call .start run false).1.jobsOn executor ↔
      job ∈ s.jobsOn executor ∨ run.executor = some executor ∧ job = run.job.id := by
  cases hexec : run.executor with
  | none => simp [call, latency?, finish, hexec]
  | some there =>
    simp only [call, latency?, finish, hexec, hworks, Bool.false_eq_true, if_false]
    rw [jobsOn, jobsOn, Table.get?_update]
    by_cases hhere : executor = there
    · subst hhere
      cases s.hosted.get? executor with
      | none => simp
      | some jobs =>
        by_cases hin : run.job.id ∈ jobs
        · simp only [Option.getD_some, List.contains_eq_mem, hin, decide_true, if_true, true_and]
          refine ⟨.inl, fun h => h.elim id ?_⟩
          rintro rfl
          exact hin
        · simp [hin]
    · simp [hhere, Ne.symm hhere]

/-- A call for a bound run that is not cancelled succeeds when starts do not fail. -/
theorem call_succeeds {kind : CallKind} {run : Run κ} (hworks : s.config.startsFail = false)
    (hbound : run.executor.isSome = true) : (s.call kind run false).2.1 = .ok () := by
  obtain ⟨executor, hexec⟩ := Option.isSome_iff_exists.1 hbound
  cases kind <;> simp [call, latency?, finish, hexec, hworks]

theorem finish_config (s : Simulation) (kind : CallKind) (run : Run κ) :
    (s.finish kind run).1.config = s.config := by
  unfold finish
  repeat' split
  all_goals rfl

/-- Calls do not change how executors behave. -/
theorem call_config (s : Simulation) (kind : CallKind) (run : Run κ) (cancelled : Bool) :
    (s.call kind run cancelled).1.config = s.config := by
  unfold call
  cases s.latency? kind run with
  | none => exact s.finish_config kind run
  | some latency =>
    cases cancelled with
    | true => rfl
    | false => exact s.finish_config kind run

theorem hostedCount_eq (s : Simulation) :
    s.hostedCount = (s.hosted.values.map List.length).sum := by
  rw [hostedCount, List.sum_eq_foldl, List.foldl_map]

/-- Nothing is hosted exactly when no executor hosts anything. -/
theorem hostedCount_eq_zero_iff :
    s.hostedCount = 0 ↔ ∀ executor job, job ∉ s.jobsOn executor := by
  have hvalues : s.hostedCount = 0 ↔ ∀ jobs ∈ s.hosted.values, jobs = [] := by
    rw [hostedCount_eq]
    induction s.hosted.values with
    | nil => simp
    | cons jobs l ih => simp [ih]
  rw [hvalues]
  constructor
  · intro hempty executor job hjob
    obtain ⟨jobs, hentry, hin⟩ := mem_jobsOn_iff.1 hjob
    simp [hempty jobs (List.mem_map.2 ⟨_, hentry, rfl⟩)] at hin
  · intro hnone jobs hjobs
    obtain ⟨⟨executor, _⟩, hentry, rfl⟩ := List.mem_map.1 hjobs
    exact List.eq_nil_iff_forall_not_mem.2 fun job hin =>
      hnone executor job (mem_jobsOn_iff.2 ⟨_, hentry, hin⟩)

end Dispatch.Simulation
