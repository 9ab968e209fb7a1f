import Dispatch.Proofs.History.Binding

/-!
# What the loop does once it was left

A loop that was left looks at its runs again and again, and each time stops those that are still
placed.  After the first look there are none (`Registry.Vacant`), and none is placed again, so that
from then on only the calls under way are waited for.

* `Scheduler.drainPass_get?`, `Scheduler.drainPass_issued` : **every placed run is being stopped
  after a look, by one call of its own**, and no other run is touched;
* `Scheduler.drainPass_vacant`, `Scheduler.complete_vacant` : no run is placed from then on.
-/

namespace Dispatch

variable {κ : Type} {run : Run κ} {now looked shown : Instant}

theorem Run.not_isPlaced_of_unbound (h : run.executor = none) : ¬ run.IsPlaced := by
  simp [IsPlaced, h]

theorem Run.not_isPlaced_of_stopping (h : run.stopping = true) : ¬ run.IsPlaced := by
  simp [IsPlaced, h]

/-- No run is on an executor but those that are being stopped. -/
def Registry.Vacant (r : Registry κ) : Prop :=
  ∀ id run, r.runs.get? id = some run → ¬ run.IsPlaced

theorem Registry.Vacant.modifyRun {r : Registry κ} {job : String} (h : r.Vacant)
    (hrun : r.runs.get? job = some run) {f : Run κ → Run κ} (hf : ¬ (f run).IsPlaced) :
    (r.modifyRun job f).Vacant := by
  intro id run' hrun'
  rw [get?_modifyRun hrun] at hrun'
  split at hrun'
  · obtain rfl := Option.some.inj hrun'
    exact hf
  · exact h id run' hrun'

theorem Registry.Vacant.removeRun {r : Registry κ} {job : String} (h : r.Vacant) :
    (r.removeRun job).Vacant := by
  intro id run' hrun'
  simp only [Registry.removeRun, Table.get?_erase] at hrun'
  split at hrun'
  · cases hrun'
  · exact h id run' hrun'

namespace Scheduler

variable {s : Scheduler κ} {job : String}

/-- The call by which the loop stops a run. -/
def stopCall (s : Scheduler κ) (run : Run κ) (now : Instant) : Call κ where
  kind := .stop
  run := run.stop false now
  limit := s.config.callTimeout
  deadline := s.config.callTimeout.bind now.after?
  final := s.stage == .draining

theorem stopRun_issued (hrun : s.registry.runs.get? job = some run) (hplaced : run.IsPlaced) :
    (s.stopRun job false now).1.issued = s.issued ++ [s.stopCall run now] := by
  have hbefore : ((s.put job (run.stop false now) .ending now).report .jobStopped
      (run.stop false now)).issued = s.issued := by simp
  rw [stopRun_bound hrun hplaced.2 hplaced.1, putStop, issue, emit_issued]
  exact congrArg (· ++ [s.stopCall run now]) hbefore

/-- Stopping several placed runs stops each of them, by a call of its own. -/
theorem stopAll_placed {jobs : List String} (hnodup : jobs.Nodup)
    (hplaced : ∀ job ∈ jobs, ∃ run, s.registry.runs.get? job = some run ∧ run.IsPlaced) :
    (∀ id, (s.stopAll jobs now).registry.runs.get? id =
        if id ∈ jobs then (s.registry.runs.get? id).map (·.stop false now)
        else s.registry.runs.get? id) ∧
      (s.stopAll jobs now).issued = s.issued ++ jobs.filterMap fun job =>
        (s.registry.runs.get? job).map (s.stopCall · now) := by
  induction jobs generalizing s with
  | nil => exact ⟨fun _ => rfl, by simp [stopAll]⟩
  | cons job jobs ih =>
    obtain ⟨hout, hnodup⟩ := List.nodup_cons.1 hnodup
    obtain ⟨run, hrun, hrun'⟩ := hplaced job List.mem_cons_self
    have hget : ∀ id, (s.stopRun job false now).1.registry.runs.get? id =
        if id = job then some (run.stop false now) else s.registry.runs.get? id := by
      intro id
      rw [stopRun_bound hrun hrun'.2 hrun'.1, putStop_registry, Registry.get?_modifyRun hrun]
    have hothers : ∀ id ∈ jobs, (s.stopRun job false now).1.registry.runs.get? id =
        s.registry.runs.get? id := by
      intro id hid
      rw [hget, if_neg (by rintro rfl; exact hout hid)]
    obtain ⟨hruns, hissued⟩ := ih (s := (s.stopRun job false now).1) hnodup fun id hid => by
      rw [hothers id hid]
      exact hplaced id (List.mem_cons_of_mem _ hid)
    have hcall : (s.stopRun job false now).1.stopCall = s.stopCall := by
      rw [stopRun_bound hrun hrun'.2 hrun'.1]
      rfl
    refine ⟨fun id => (hruns id).trans ?_, hissued.trans ?_⟩
    · rw [hget]
      by_cases hid : id = job
      · subst hid
        simp [hout, hrun]
      · simp [hid]
    · rw [stopRun_issued hrun hrun', hcall, List.filterMap_cons, hrun, Option.map_some,
        List.append_assoc, List.singleton_append]
      congr 2
      exact List.filterMap_congr fun id hid => by rw [hothers id hid]

variable [Quantity κ]

omit [Quantity κ] in
theorem boundJobs_eq (s : Scheduler κ) :
    s.boundJobs = (s.registry.allRuns.filter (·.IsPlaced)).map (·.job.id) := by
  rw [boundJobs]
  congr 2
  funext run
  have hplaced : (run.executor.isSome && !run.stopping) = true ↔ run.IsPlaced := by
    simp [Run.IsPlaced]
  exact Bool.eq_iff_iff.2 (hplaced.trans decide_eq_true_iff.symm)

theorem boundJobs_placed (hsound : s.registry.Sound) :
    s.boundJobs.Nodup ∧
      (∀ job ∈ s.boundJobs, ∃ run, s.registry.runs.get? job = some run ∧ run.IsPlaced) ∧
      ∀ {id run}, s.registry.runs.get? id = some run → (id ∈ s.boundJobs ↔ run.IsPlaced) := by
  rw [boundJobs_eq]
  refine ⟨?_, ?_, ?_⟩
  · have hids : (s.registry.allRuns.map (·.job.id)).Nodup := by
      rw [map_job_id hsound.run_key]
      exact s.registry.runs.nodup
    exact hids.sublist (List.filter_sublist.map _)
  · intro job hjob
    obtain ⟨run, hrun, rfl⟩ := List.mem_map.1 hjob
    obtain ⟨hmem, hplaced⟩ := List.mem_filter.1 hrun
    exact ⟨run, hsound.get?_of_mem hmem, by simpa using hplaced⟩
  · intro id run hrun
    constructor
    · intro hid
      obtain ⟨run', hrun', rfl⟩ := List.mem_map.1 hid
      obtain ⟨hmem, hplaced⟩ := List.mem_filter.1 hrun'
      obtain rfl : run' = run := by simpa [hsound.get?_of_mem hmem] using hrun
      simpa using hplaced
    · intro hplaced
      have hmem : run ∈ s.registry.allRuns.filter (·.IsPlaced) :=
        List.mem_filter.2 ⟨Table.mem_values hrun, by simpa using hplaced⟩
      exact List.mem_map.2 ⟨run, hmem, hsound.run_key hrun⟩

/-- **A look stops the runs that are placed** and leaves the others as they are. -/
theorem drainPass_get? (hsound : s.registry.Sound) (id : String) :
    (s.drainPass looked shown).registry.runs.get? id =
      (s.registry.runs.get? id).map fun run =>
        if run.IsPlaced then run.stop false looked else run := by
  obtain ⟨hnodup, hplaced, hmem⟩ := boundJobs_placed hsound
  rw [(drainPass_eq s looked shown).1, (stopAll_placed hnodup hplaced).1]
  cases hrun : s.registry.runs.get? id with
  | none => simp
  | some run => by_cases h : run.IsPlaced <;> simp [hmem hrun, h]

/-- **For each placed run a look issues one stop call**, and no other call. -/
theorem drainPass_issued (hsound : s.registry.Sound) :
    (s.drainPass looked shown).issued =
      s.issued ++ (s.registry.allRuns.filter (·.IsPlaced)).map (s.stopCall · looked) := by
  obtain ⟨hnodup, hplaced, -⟩ := boundJobs_placed hsound
  rw [(drainPass_eq s looked shown).2.1, (stopAll_placed hnodup hplaced).2, boundJobs_eq,
    List.filterMap_map]
  congr 1
  rw [← List.filterMap_eq_map]
  refine List.filterMap_congr fun run hrun => ?_
  simp [hsound.get?_of_mem (List.mem_filter.1 hrun).1]

/-- Leaving the loop issues a final stop call for each placed run, and no other call. -/
theorem leaveAt_issued (hsound : s.registry.Sound) (queued : List Ticket) :
    (s.leaveAt queued looked shown).issued =
      s.issued ++ (s.registry.allRuns.filter (·.IsPlaced)).map
        ({ s with stage := .draining }.stopCall · looked) := by
  simp only [leaveAt, answerAll_eq]
  rw [drainPass_issued (by exact hsound)]
  simp [issued, Output.call?, stopCall, Function.comp_def]

theorem drainPass_vacant (hsound : s.registry.Sound) :
    (s.drainPass looked shown).registry.Vacant := by
  intro id run hrun
  rw [drainPass_get? hsound] at hrun
  obtain ⟨run', -, rfl⟩ := Option.map_eq_some_iff.1 hrun
  split
  · exact Run.not_isPlaced_of_stopping rfl
  · assumption

theorem leaveAt_vacant (hsound : s.registry.Sound) (queued : List Ticket) :
    (s.leaveAt queued looked shown).registry.Vacant := by
  simp only [leaveAt, answerAll_eq]
  exact drainPass_vacant hsound

/-- A look at a vacant registry issues no call. -/
theorem drainPass_issued_of_vacant (hsound : s.registry.Sound) (h : s.registry.Vacant) :
    (s.drainPass looked shown).issued = s.issued := by
  have hnone : s.registry.allRuns.filter (·.IsPlaced) = [] := by
    refine List.filter_eq_nil_iff.2 fun run hrun => ?_
    simpa using h _ run (hsound.get?_of_mem hrun)
  rw [drainPass_issued hsound, hnone, List.map_nil, List.append_nil]

/-- A call that comes back places no run. -/
theorem complete_vacant (hsound : s.registry.Sound) (h : s.registry.Vacant) {c : Completion} :
    (s.complete c now).registry.Vacant := by
  rcases complete_eq s c now with ⟨-, heq⟩ | ⟨d, hd, hdoes⟩
  · rw [heq]
    exact h
  obtain ⟨run, -, -, hreturns⟩ := effect?_eq_some_iff.1 hd
  generalize s.complete c now = s' at hdoes ⊢
  cases hreturns with
  | confirm =>
    cases hdoes with
    | confirm hrun hst hs =>
      -- a run that waits for its start is placed
      have hbound := ((hsound.shaped hrun).of_started (Run.isStarting_iff.1 hs).1).1
      exact absurd ⟨hbound, hst⟩ (h _ _ hrun)
  | release =>
    cases hdoes with
    | release hrun => exact h.modifyRun hrun (Run.not_isPlaced_of_unbound rfl)
  | finish =>
    cases hdoes with
    | finish =>
      simp only [drop_registry, noteStop_registry]
      exact Registry.Vacant.removeRun h
  | settle =>
    cases hdoes with
    | settle hrun =>
      simp only [report_registry, put_registry, noteStop_registry]
      exact Registry.Vacant.modifyRun h hrun (Run.not_isPlaced_of_unbound rfl)

end Scheduler

end Dispatch
