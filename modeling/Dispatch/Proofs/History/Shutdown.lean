import Dispatch.Proofs.History.Calls
import Dispatch.Proofs.History.Deployment
import Dispatch.Proofs.History.Drain
import Dispatch.Proofs.History.Late
import Dispatch.Proofs.Numbers
import Dispatch.Proofs.Simulation

/-!
# What a shutdown leaves behind

A shutdown cancels the calls under way and stops every run that is placed.  A run that was already
being stopped is not stopped again: its stop call is among those cancelled, and the run counts as
off its executor all the same.

* `Deployment.Clears` : what holds from the shutdown on;
* `hosted_after_shutdown_iff` : **what is hosted in the end are the jobs that were being stopped
  when the loop was left**, and nothing is hosted exactly when there were none;
* `hosted_after_shutdown_fails` : a shutdown that leaves a job hosted.
-/

namespace Dispatch

open Scheduler

variable {κ : Type}

/-- The run of a job is being stopped. -/
def Scheduler.IsStopping (s : Scheduler κ) (job : String) : Prop :=
  ∃ run, s.registry.runs.get? job = some run ∧ run.stopping = true

namespace Deployment

/-- A call that no shutdown cancels is still to take a job off an executor. -/
def Awaits (d : Deployment κ) (executor job : String) : Prop :=
  ∃ assignment ∈ d.assignments, assignment.result = none ∧ assignment.call.final = true ∧
    assignment.call.run.executor = some executor ∧ job = assignment.call.run.job.id

/-- What holds of a deployment from the moment at which `left` was left.  Every job hosted then is
still hosted if it was being stopped, and otherwise until a final call has taken it off. -/
structure Clears (left d : Deployment κ) : Prop where
  stage : d.scheduler.stage ≠ .serving
  idle : d.scheduler.stage = .ended → d.scheduler.inFlight = 0
  vacant : d.scheduler.registry.Vacant
  stops : ∀ assignment ∈ d.assignments, assignment.call.kind = .stop
  final : ∀ assignment ∈ d.assignments, assignment.call.final = true →
    ¬ left.scheduler.IsStopping assignment.call.run.job.id
  hosted : ∀ executor job, job ∈ d.simulation.jobsOn executor ↔
    job ∈ left.simulation.jobsOn executor ∧
      (left.scheduler.IsStopping job ∨ d.Awaits executor job)

variable [Quantity κ] {P : Scheduler κ → Advance κ → Prop} {config : Config κ}
  {left d d' : Deployment κ}

/-- There is no other stop call for the job of a stop call. -/
theorem job_ne_of_stops (h : DeployedBy P config d) {before after : List (Assignment κ)}
    {call : Call κ} {result : Option CallResult}
    (hsplit : d.assignments = before ++ ⟨call, result⟩ :: after) (hkind : call.kind = .stop) :
    ∀ assignment ∈ before ++ after, assignment.call.kind = .stop →
      assignment.call.run.job.id ≠ call.run.job.id := by
  intro assignment hmem
  have htakes : Takes d.session.underWay (some (call.completion (.ok ())))
      ((before ++ after).map (·.call)) :=
    ⟨before.map (·.call), call, after.map (·.call), .ok (), by simp [Deployment.session, hsplit],
      rfl, by simp⟩
  exact h.reachedBy.tracked.stops.takes htakes hkind _ (List.mem_map_of_mem hmem)

/-- A final call that is answered is no longer waited for; nothing else changes in that. -/
theorem awaits_answer (h : DeployedBy P config d)
    (hstops : ∀ assignment ∈ d.assignments, assignment.call.kind = .stop)
    {before after : List (Assignment κ)} {call : Call κ}
    (hsplit : d.assignments = before ++ ⟨call, none⟩ :: after) (executor job : String) :
    (d.answer before call after).Awaits executor job ↔ d.Awaits executor job ∧
      ¬ (call.final = true ∧ call.run.executor = some executor ∧ job = call.run.job.id) := by
  have hkind : call.kind = .stop := hstops ⟨call, none⟩ (by simp [hsplit])
  constructor
  · rintro ⟨assignment, hassignment, hopen, hfinal, hexec, rfl⟩
    have hother : assignment ∈ before ++ after := by
      refine (mem_answer_iff.1 hassignment).resolve_left ?_
      rintro rfl
      cases hopen
    have hold : assignment ∈ d.assignments := (mem_iff_of_split hsplit).2 (.inr hother)
    refine ⟨⟨assignment, hold, hopen, hfinal, hexec, rfl⟩, fun hsame => ?_⟩
    exact job_ne_of_stops h hsplit hkind _ hother (hstops _ hold) hsame.2.2
  · rintro ⟨⟨assignment, hassignment, hopen, hfinal, hexec, rfl⟩, hne⟩
    refine ⟨assignment, mem_answer_iff.2 (.inr ?_), hopen, hfinal, hexec, rfl⟩
    refine ((mem_iff_of_split hsplit).1 hassignment).resolve_left ?_
    rintro rfl
    exact hne ⟨hfinal, hexec, rfl⟩

theorem Clears.answer (h : left.Clears d) (hreach : DeployedBy P config d)
    (hanswers : d.Answers d') : left.Clears d' := by
  obtain ⟨before, call, after, hsplit, rfl⟩ := hanswers
  have hmem : ⟨call, none⟩ ∈ d.assignments := (mem_iff_of_split hsplit).2 (.inl rfl)
  have hcalls : ∀ assignment ∈ (d.answer before call after).assignments,
      ∃ assignment' ∈ d.assignments, assignment'.call = assignment.call := by
    intro assignment hassignment
    rcases mem_answer_iff.1 hassignment with rfl | hother
    · exact ⟨_, hmem, rfl⟩
    · exact ⟨assignment, (mem_iff_of_split hsplit).2 (.inr hother), rfl⟩
  -- a call that is not final has been cancelled, and a final one takes its job off
  have heffect : ∀ executor job,
      job ∈ (d.answer before call after).simulation.jobsOn executor ↔
        job ∈ d.simulation.jobsOn executor ∧
          ¬ (call.final = true ∧ call.run.executor = some executor ∧ job = call.run.job.id) := by
    intro executor job
    have hkind : call.kind = .stop := h.stops _ hmem
    have hcancels : d.cancels call = !call.final := by simp [cancels, h.stage]
    simp only [Deployment.answer, hkind, hcancels]
    rw [Simulation.mem_jobsOn_stop, Bool.not_eq_false']
  refine ⟨h.stage, h.idle, h.vacant, ?_, ?_, ?_⟩
  · intro assignment hassignment
    obtain ⟨assignment', hold, hcall⟩ := hcalls assignment hassignment
    rw [← hcall]
    exact h.stops _ hold
  · intro assignment hassignment
    obtain ⟨assignment', hold, hcall⟩ := hcalls assignment hassignment
    rw [← hcall]
    exact h.final _ hold
  · intro executor job
    rw [heffect, awaits_answer hreach h.stops hsplit, h.hosted]
    constructor
    · rintro ⟨⟨hhosted, hstopping | hwaits⟩, hne⟩
      · exact ⟨hhosted, .inl hstopping⟩
      · exact ⟨hhosted, .inr ⟨hwaits, hne⟩⟩
    · rintro ⟨hhosted, hstopping | ⟨hwaits, hne⟩⟩
      · refine ⟨⟨hhosted, .inl hstopping⟩, ?_⟩
        rintro ⟨hfinal, -, rfl⟩
        exact h.final _ hmem hfinal hstopping
      · exact ⟨⟨hhosted, .inr hwaits⟩, hne⟩

theorem Clears.of_apply {a : Advance κ} {rest : List (Assignment κ)}
    (stage : (a.apply d.scheduler).stage ≠ .serving)
    (idle : (a.apply d.scheduler).stage = .ended → (a.apply d.scheduler).inFlight = 0)
    (vacant : (a.apply d.scheduler).registry.Vacant)
    (stops : ∀ assignment ∈ (d.after a rest).assignments, assignment.call.kind = .stop)
    (final : ∀ assignment ∈ (d.after a rest).assignments, assignment.call.final = true →
      ¬ left.scheduler.IsStopping assignment.call.run.job.id)
    (hosted : ∀ executor job, job ∈ d.simulation.jobsOn executor ↔
      job ∈ left.simulation.jobsOn executor ∧
        (left.scheduler.IsStopping job ∨ (d.after a rest).Awaits executor job)) :
    left.Clears (d.after a rest) :=
  ⟨stage, idle, vacant, stops, final, hosted⟩

theorem Clears.advance {a : Advance κ} (h : left.Clears d) (hreach : DeployedBy P config d)
    (hadvances : d.Advances a d') : left.Clears d' := by
  obtain ⟨hdue, -, rest, hreturned, rfl⟩ := hadvances
  have hsound := hreach.reachedBy.sound
  have hempty := hreach.reachedBy.outbox_eq_nil
  cases a with
  | turn e => cases e <;> first | exact absurd hdue h.stage | exact absurd hdue.1 h.stage
  | leave => exact absurd hdue h.stage
  | drain c heard looked shown =>
    have hsame := complete_same d.scheduler c heard
    have hsound' : (d.scheduler.complete c heard).registry.Sound :=
      Advance.takeIn_sound (a := .drain c heard looked shown) hsound
    have hvacant : (d.scheduler.complete c heard).registry.Vacant :=
      complete_vacant hsound h.vacant
    -- no run is placed, so no call is issued
    have hissued : ((Advance.drain c heard looked shown).apply d.scheduler).issued = [] := by
      rw [Advance.apply, drainTurnAt, drainPass_issued_of_vacant hsound' hvacant, hsame.2]
      simp [Scheduler.issued, show d.scheduler.outbox = [] from hempty]
    have hrest : (d.after (.drain c heard looked shown) rest).assignments = rest := by
      simp [Deployment.after, hissued]
    have hwaits : ∀ executor job,
        (d.after (.drain c heard looked shown) rest).Awaits executor job ↔
          d.Awaits executor job := by
      intro executor job
      constructor
      · rintro ⟨assignment, hin, hopen, hwaited⟩
        rw [hrest] at hin
        exact ⟨assignment, hreturned.sublist.subset hin, hopen, hwaited⟩
      · rintro ⟨assignment, hin, hopen, hwaited⟩
        refine ⟨assignment, ?_, hopen, hwaited⟩
        rw [hrest]
        exact hreturned.mem_of_open hin hopen
    refine .of_apply (drainTurnAt_stage hdue) (drainTurnAt_ended_iff hdue).1
      (drainPass_vacant hsound') ?_ ?_ ?_
    · rw [hrest]
      exact fun assignment hin => h.stops assignment (hreturned.sublist.subset hin)
    · rw [hrest]
      exact fun assignment hin => h.final assignment (hreturned.sublist.subset hin)
    · intro executor job
      rw [hwaits]
      exact h.hosted executor job

/-- **A shutdown begins to clear the executors**, if no start call is under way and each job hosted
is where its run is. -/
theorem Advances.clears {queued : List Ticket} {looked shown : Instant}
    (hreach : DeployedBy P config left)
    (stops : ∀ assignment ∈ left.assignments, assignment.call.kind = .stop)
    (owned : ∀ executor job, job ∈ left.simulation.jobsOn executor →
      ∃ run, left.scheduler.registry.runs.get? job = some run ∧ run.executor = some executor)
    (leave : left.Advances (.leave queued looked shown) d) : left.Clears d := by
  obtain ⟨hdue, -, rest, hreturned, rfl⟩ := leave
  obtain rfl : rest = left.assignments := hreturned
  have hsound : left.scheduler.registry.Sound := hreach.reachedBy.sound
  -- besides the calls under way there is a final stop call for each placed run
  have hmem : ∀ assignment,
      assignment ∈ (left.after (.leave queued looked shown) left.assignments).assignments ↔
        assignment ∈ left.assignments ∨ ∃ run ∈ left.scheduler.registry.allRuns, run.IsPlaced ∧
          assignment =
            { call := { left.scheduler with stage := .draining }.stopCall run looked } := by
    intro assignment
    have hempty : left.scheduler.issued = [] := by
      simp [Scheduler.issued, show left.scheduler.outbox = [] from hreach.reachedBy.outbox_eq_nil]
    simp only [Deployment.after, Advance.apply, leaveAt_issued hsound, hempty, List.nil_append,
      List.mem_append, List.map_map, List.mem_map, List.mem_filter, decide_eq_true_eq, and_assoc,
      Function.comp, eq_comm (a := assignment)]
  have hplaced : ∀ run ∈ left.scheduler.registry.allRuns, run.IsPlaced →
      ¬ left.scheduler.IsStopping run.job.id := by
    rintro run hrun hplaced ⟨run', hrun', hstopping⟩
    obtain rfl : run = run' := by simpa [hsound.get?_of_mem hrun] using hrun'
    simp [hplaced.2] at hstopping
  refine .of_apply leaveAt_stage leaveAt_ended_iff.1 (leaveAt_vacant hsound queued) ?_ ?_ ?_
  · intro assignment hin
    rcases (hmem assignment).1 hin with hold | ⟨run, -, -, rfl⟩
    · exact stops assignment hold
    · rfl
  · intro assignment hin hfinal
    rcases (hmem assignment).1 hin with hold | ⟨run, hrun, hrun', rfl⟩
    · have hnot := hreach.reachedBy.not_final hdue _ (List.mem_map_of_mem hold)
      simp [hnot] at hfinal
    · exact hplaced run hrun hrun'
  · intro executor job
    constructor
    · intro hhosted
      refine ⟨hhosted, ?_⟩
      obtain ⟨run, hrun, hexec⟩ := owned executor job hhosted
      cases hst : run.stopping with
      | true => exact .inl ⟨run, hrun, hst⟩
      | false =>
        refine .inr ⟨_, (hmem _).2 (.inr ⟨run, Table.mem_values hrun, ⟨by simp [hexec], hst⟩, rfl⟩),
          rfl, rfl, hexec, (hsound.run_key hrun).symm⟩
    · exact And.left

end Deployment

/-- A shutdown, from the moment at which the loop is left to its end.  No start call is under way
when the loop is left, and every job hosted then is where its run is. -/
structure Shutdown [Quantity κ] (config : Config κ) (left ended : Deployment κ) : Prop where
  reached : Deployed config left
  stops : ∀ assignment ∈ left.assignments, assignment.call.kind = .stop
  owned : ∀ executor job, job ∈ left.simulation.jobsOn executor →
    ∃ run, left.scheduler.registry.runs.get? job = some run ∧ run.executor = some executor
  drained : ∃ queued looked shown d, left.Advances (.leave queued looked shown) d ∧
    d.LeadsBy (fun _ _ => True) ended
  finished : ended.scheduler.stage = .ended

/-- **What a shutdown leaves hosted** are the jobs that were hosted when the loop was left and whose
runs were being stopped then.  So nothing is hosted if and only if there were no such jobs. -/
theorem hosted_after_shutdown_iff [Quantity κ] {config : Config κ} {left ended : Deployment κ}
    (h : Shutdown config left ended) :
    (∀ executor job, job ∈ ended.simulation.jobsOn executor ↔
        job ∈ left.simulation.jobsOn executor ∧ left.scheduler.IsStopping job) ∧
      (ended.simulation.hostedCount = 0 ↔ ∀ executor job,
        job ∈ left.simulation.jobsOn executor → ¬ left.scheduler.IsStopping job) := by
  obtain ⟨queued, looked, shown, d, leave, drain⟩ := h.drained
  have hreach : Deployed config d := h.reached.leadsBy (.advance .refl trivial leave)
  have hclears : left.Clears ended := by
    refine drain.invariant (leave.clears h.reached h.stops h.owned) ?_ ?_
    · exact fun _ _ hleads h hanswers => h.answer (hreach.leadsBy hleads) hanswers
    · exact fun _ _ _ hleads h _ hadvances => h.advance (hreach.leadsBy hleads) hadvances
  -- all calls have come back
  have hnone : ended.assignments = [] := by
    have hcount := (hreach.leadsBy drain).reachedBy.inFlight_eq
    have hidle : ended.session.scheduler.inFlight = 0 := hclears.idle h.finished
    rw [hidle] at hcount
    simpa [Deployment.session, eq_comm] using hcount
  have hhosted : ∀ executor job, job ∈ ended.simulation.jobsOn executor ↔
      job ∈ left.simulation.jobsOn executor ∧ left.scheduler.IsStopping job := by
    intro executor job
    have hwaits : ¬ ended.Awaits executor job := by simp [Deployment.Awaits, hnone]
    simpa [hwaits] using hclears.hosted executor job
  refine ⟨hhosted, ?_⟩
  rw [Simulation.hostedCount_eq_zero_iff]
  refine forall_congr' fun executor => forall_congr' fun job => ?_
  rw [hhosted, not_and]

/-- A replayed shutdown: what the loop is left in is reached, and it drains to an end. -/
theorem Shutdown.replay [Quantity κ] {config : Config κ} {left d ended : Deployment κ}
    {simulation : SimulationConfig} {now t : Instant}
    {before after : List (Instant × Deployment.Cue κ)} (valid : config.validate = .ok ())
    (patient : config.callTimeout = none)
    (reached : (Deployment.start config simulation now).play before = some left)
    (stops : ∀ assignment ∈ left.assignments, assignment.call.kind = .stop)
    (owned : ∀ entry ∈ left.simulation.hosted.entries, ∀ job ∈ entry.2,
      (left.scheduler.registry.runs.get? job).map (·.executor) = some (some entry.1))
    (leave : left.next? t .leave = some d) (drain : d.play after = some ended)
    (finished : ended.scheduler.stage = .ended) : Shutdown config left ended where
  reached := ⟨valid, patient, simulation, now,
    Deployment.play_leadsBy (fun _ _ _ _ _ => trivial) reached⟩
  stops := stops
  owned executor job hhosted := by
    obtain ⟨jobs, hentry, hin⟩ := Simulation.mem_jobsOn_iff.1 hhosted
    exact Option.map_eq_some_iff.1 (owned _ hentry job hin)
  drained :=
    ⟨[], t, t, d, Deployment.advances_of_advance? rfl leave,
      Deployment.play_leadsBy (fun _ _ _ _ _ => trivial) drain⟩
  finished := finished

/-- Two jobs run on an executor, and one of them is being stopped. -/
def halfStopped : Deployment ℚ :=
  ((Deployment.start startConfirms {} 0).play
    [(0, .request (.addExecutor { id := "A", capacity := 10 })),
      (0, .request (.addJob { id := "j1", cost := 1 })),
      (0, .answer 0),
      (0, .back 0),
      (0, .request (.addJob { id := "j2", cost := 1 })),
      (0, .answer 0),
      (0, .back 0),
      (0, .request (.stopJob "j2"))]).get (by decide +kernel)

/-- The shutdown has just begun. -/
def halfStoppedLeft : Deployment ℚ := (halfStopped.next? 0 .leave).get (by decide +kernel)

/-- The calls have been answered and have come back, the last one first. -/
def halfStoppedEnded : Deployment ℚ :=
  (halfStoppedLeft.play [(0, .answer 1), (0, .back 1), (0, .answer 0), (0, .back 0)]).get
    (by decide +kernel)

/-- The job that was being stopped is left, the other one is not. -/
theorem hosted_after_shutdown_iff_halfStopped :
    Shutdown startConfirms halfStopped halfStoppedEnded ∧
      "j2" ∈ halfStoppedEnded.simulation.jobsOn "A" ∧
      "j1" ∉ halfStoppedEnded.simulation.jobsOn "A" := by
  have hshutdown : Shutdown startConfirms halfStopped halfStoppedEnded :=
    .replay (by decide +kernel) rfl (Option.some_get _).symm (by decide +kernel)
      (by decide +kernel) (Option.some_get _).symm (Option.some_get _).symm (by decide +kernel)
  have hhosted := (hosted_after_shutdown_iff hshutdown).1
  have hstates : ["j1", "j2"].map (fun job =>
      (halfStopped.scheduler.registry.runs.get? job).map (·.stopping)) =
        [some false, some true] := by decide +kernel
  simp only [List.map_cons, List.map_nil, List.cons.injEq, Option.map_eq_some_iff, and_true]
    at hstates
  obtain ⟨⟨run, hrun, hst⟩, hstopping⟩ := hstates
  refine ⟨hshutdown, (hhosted "A" "j2").2 ⟨by decide +kernel, hstopping⟩, fun hj1 => ?_⟩
  obtain ⟨run', hrun', hst'⟩ := ((hhosted "A" "j1").1 hj1).2
  obtain rfl : run = run' := by simpa [hrun] using hrun'
  simp [hst] at hst'

/-- A job runs on an executor and is being stopped. -/
def lastStopped : Deployment ℚ :=
  ((Deployment.start startConfirms {} 0).play
    [(0, .request (.addExecutor { id := "A", capacity := 10 })),
      (0, .request (.addJob { id := "j", cost := 1 })),
      (0, .answer 0),
      (0, .back 0),
      (0, .request (.stopJob "j"))]).get (by decide +kernel)

/-- The shutdown has just begun. -/
def lastStoppedLeft : Deployment ℚ := (lastStopped.next? 0 .leave).get (by decide +kernel)

/-- The stop call, which is cancelled, has come back. -/
def lastStoppedEnded : Deployment ℚ :=
  (lastStoppedLeft.play [(0, .answer 0), (0, .back 0)]).get (by decide +kernel)

/-- When the loop has ended, the executor still hosts the job. -/
theorem hosted_after_shutdown_fails :
    Shutdown startConfirms lastStopped lastStoppedEnded ∧
      lastStoppedEnded.simulation.hostedCount = 1 :=
  ⟨.replay (by decide +kernel) rfl (Option.some_get _).symm (by decide +kernel)
    (by decide +kernel) (Option.some_get _).symm (Option.some_get _).symm (by decide +kernel),
    by decide +kernel⟩

end Dispatch
