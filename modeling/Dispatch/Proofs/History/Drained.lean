import Dispatch.Proofs.History.Drain
import Dispatch.Proofs.History.Late
import Dispatch.Proofs.History.Outstanding
import Dispatch.Proofs.Numbers

/-!
# A drain is complete

From the moment at which the loop is left, its books can only shrink (`Registry.Sheds`): calls come
back, runs end up pending, and jobs that were to be removed go.

* `Session.Drains` : what holds from that moment on, whatever the calls come to and in which order;
* `drain_complete` : **no start call is issued from then on, each placed run is stopped by one call,
  and the drain ends exactly when no call is under way**; all runs are then pending, and the jobs
  registered are those that were not to be removed.
-/

namespace Dispatch

open Scheduler

variable {κ : Type}

/-- Jobs and runs are those of before, but for some jobs that were to be removed and are gone. -/
structure Registry.Sheds (r r' : Registry κ) : Prop where
  runs : ∀ id run', r'.runs.get? id = some run' →
    ∃ run, r.runs.get? id = some run ∧ run.removing = run'.removing
  jobs : ∀ id, r'.jobs.get? id = r.jobs.get? id ∨ r'.jobs.get? id = none ∧
    ∃ run, r.runs.get? id = some run ∧ run.removing = true

namespace Registry.Sheds

variable {r r' r'' : Registry κ} {job : String} {run : Run κ}

theorem refl (r : Registry κ) : r.Sheds r := ⟨fun _ run hrun => ⟨run, hrun, rfl⟩, fun _ => .inl rfl⟩

theorem trans (h : r.Sheds r') (h' : r'.Sheds r'') : r.Sheds r'' where
  runs id run'' hrun'' := by
    obtain ⟨run', hrun', hremoving'⟩ := h'.runs id run'' hrun''
    obtain ⟨run, hrun, hremoving⟩ := h.runs id run' hrun'
    exact ⟨run, hrun, hremoving.trans hremoving'⟩
  jobs id := by
    rcases h'.jobs id with hsame' | ⟨hgone, run', hrun', hremoving'⟩
    · rw [hsame']
      exact h.jobs id
    · obtain ⟨run, hrun, hremoving⟩ := h.runs id run' hrun'
      exact .inr ⟨hgone, run, hrun, hremoving.trans hremoving'⟩

theorem modifyRun (hrun : r.runs.get? job = some run) {f : Run κ → Run κ}
    (hf : (f run).removing = run.removing) : r.Sheds (r.modifyRun job f) where
  runs id run' hrun' := by
    rw [get?_modifyRun hrun] at hrun'
    split at hrun'
    · rename_i hid
      obtain rfl := Option.some.inj hrun'
      exact ⟨run, hid ▸ hrun, hf.symm⟩
    · exact ⟨run', hrun', rfl⟩
  jobs id := .inl rfl

theorem removeRun (hrun : r.runs.get? job = some run) (hremoving : run.removing = true) :
    r.Sheds (r.removeRun job) where
  runs id run' hrun' := by
    simp only [Registry.removeRun, Table.get?_erase] at hrun'
    split at hrun'
    · cases hrun'
    · exact ⟨run', hrun', rfl⟩
  jobs id := by
    simp only [Registry.removeRun, Table.get?_erase]
    split
    · rename_i hid
      exact .inr ⟨rfl, run, hid ▸ hrun, hremoving⟩
    · exact .inl rfl

end Registry.Sheds

variable [Quantity κ] {s : Scheduler κ} {now looked shown : Instant}

/-- A call that comes back takes at most its job away. -/
theorem Scheduler.complete_sheds (s : Scheduler κ) (c : Completion) (now : Instant) :
    s.registry.Sheds (s.complete c now).registry := by
  rcases complete_eq s c now with ⟨-, heq⟩ | ⟨d, hd, hdoes⟩
  · rw [heq]
    exact .refl _
  obtain ⟨run, hrun, -, hreturns⟩ := effect?_eq_some_iff.1 hd
  generalize s.complete c now = s' at hdoes ⊢
  cases hreturns with
  | confirm =>
    cases hdoes with
    | confirm hrun' => exact .modifyRun hrun' rfl
  | release =>
    cases hdoes with
    | release hrun' => exact .modifyRun hrun' rfl
  | finish _ _ hremoving =>
    cases hdoes with
    | finish =>
      simp only [drop_registry, noteStop_registry]
      exact .removeRun hrun hremoving
  | settle =>
    cases hdoes with
    | settle hrun' =>
      simp only [report_registry, put_registry, noteStop_registry]
      exact .modifyRun hrun' rfl

/-- A look at the runs while the loop drains takes nothing away. -/
theorem Scheduler.drainPass_sheds (hsound : s.registry.Sound) :
    s.registry.Sheds (s.drainPass looked shown).registry where
  runs id run' hrun' := by
    rw [drainPass_get? hsound] at hrun'
    obtain ⟨run, hrun, rfl⟩ := Option.map_eq_some_iff.1 hrun'
    refine ⟨run, hrun, ?_⟩
    split
    · rename_i hplaced
      exact (hsound.shaped hrun).removing_eq_false hplaced.2
    · rfl
  jobs id := .inl (by rw [drainPass_jobs])

theorem Scheduler.leaveAt_sheds (hsound : s.registry.Sound) (queued : List Ticket) :
    s.registry.Sheds (s.leaveAt queued looked shown).registry := by
  have hready : (s.answerAll (queued ++ s.checksWaiting) (.error .shutdown)).registry =
      s.registry := by rw [answerAll_eq]
  rw [← hready] at hsound ⊢
  exact drainPass_sheds (s := { s.answerAll (queued ++ s.checksWaiting) (.error .shutdown) with
    stage := .draining, checksWaiting := [] }) hsound

/-- The calls by which a loop that is left stops its runs. -/
def Scheduler.finalCalls (s : Scheduler κ) (looked : Instant) : List (Call κ) :=
  (s.registry.allRuns.filter (·.IsPlaced)).map ({ s with stage := .draining }.stopCall · looked)

/-- Each is a stop call for a placed run, and there is one for each such run. -/
theorem Scheduler.finalCalls_spec (hsound : s.registry.Sound) (looked : Instant) :
    (∀ call ∈ s.finalCalls looked, call.kind = .stop ∧
        ∃ run, s.registry.runs.get? call.run.job.id = some run ∧
          call.run = run.stop false looked) ∧
      ∀ id run, s.registry.runs.get? id = some run →
        (s.finalCalls looked).countP (·.run.job.id = id) = if run.IsPlaced then 1 else 0 := by
  obtain ⟨hnodup, -, hmem⟩ := boundJobs_placed hsound
  constructor
  · intro call hcall
    obtain ⟨run, hrun, rfl⟩ := List.mem_map.1 hcall
    exact ⟨rfl, run, hsound.get?_of_mem (List.mem_filter.1 hrun).1, rfl⟩
  · intro id run hrun
    have hcount : (s.finalCalls looked).countP (·.run.job.id = id) = s.boundJobs.count id := by
      rw [boundJobs_eq, finalCalls, List.count, List.countP_map, List.countP_map]
      rfl
    rw [hcount]
    split
    · rename_i hplaced
      exact List.count_eq_one_of_mem hnodup ((hmem hrun).2 hplaced)
    · rename_i hplaced
      exact List.count_eq_zero_of_not_mem fun hin => hplaced ((hmem hrun).1 hin)

/-- What holds from the moment on at which the loop is left, and issues `calls`. -/
structure Session.Drains (start : Session κ) (calls : List (Call κ)) (s : Session κ) : Prop where
  left : s.scheduler.stage ≠ .serving
  ended : s.scheduler.stage = .ended ↔ s.scheduler.inFlight = 0
  vacant : s.scheduler.registry.Vacant
  calls : s.calls = start.calls ++ calls
  sheds : start.scheduler.registry.Sheds s.scheduler.registry

namespace Session

variable {config : Config κ} {start left s s' : Session κ} {calls : List (Call κ)}
  {P : Scheduler κ → Advance κ → Prop}

theorem Drains.of_apply {a : Advance κ} {rest : List (Call κ)}
    (left : (a.apply s.scheduler).stage ≠ .serving)
    (ended : (a.apply s.scheduler).stage = .ended ↔ (a.apply s.scheduler).inFlight = 0)
    (vacant : (a.apply s.scheduler).registry.Vacant)
    (issued : s.calls ++ (a.apply s.scheduler).issued = start.calls ++ calls)
    (sheds : start.scheduler.registry.Sheds (a.apply s.scheduler).registry) :
    start.Drains calls (s.after a rest) :=
  ⟨left, ended, vacant, (calls_after s a rest).trans issued, sheds⟩

/-- **A drain begins** with a call for each placed run. -/
theorem Step.drains {queued : List Ticket} (h : ReachedBy P config start)
    (hstep : start.Step (.leave queued looked shown) left) :
    start.Drains (start.scheduler.finalCalls looked) left := by
  obtain ⟨-, -, rest, -, rfl⟩ := hstep
  refine .of_apply leaveAt_stage leaveAt_ended_iff (leaveAt_vacant h.sound queued) ?_
    (leaveAt_sheds h.sound queued)
  rw [Advance.apply, leaveAt_issued h.sound, h.issued_eq_nil, List.nil_append]
  rfl

/-- **A drain goes on** with every call that comes back. -/
theorem Drains.step {a : Advance κ} (h : start.Drains calls s) (hreach : ReachedBy P config s)
    (hstep : s.Step a s') : start.Drains calls s' := by
  obtain ⟨hdue, -, rest, -, rfl⟩ := hstep
  cases a with
  | turn e => cases e <;> first | exact absurd hdue h.left | exact absurd hdue.1 h.left
  | leave => exact absurd hdue h.left
  | drain c heard looked shown =>
    have hissued : (s.scheduler.complete c heard).issued = [] := by
      rw [(complete_same s.scheduler c heard).2]
      exact hreach.issued_eq_nil
    have hsound : (s.scheduler.complete c heard).registry.Sound :=
      Advance.takeIn_sound (a := .drain c heard looked shown) hreach.sound
    have hvacant : (s.scheduler.complete c heard).registry.Vacant :=
      complete_vacant hreach.sound h.vacant
    refine .of_apply (drainTurnAt_stage hdue) (drainTurnAt_ended_iff hdue)
      (drainPass_vacant hsound) ?_ ?_
    · rw [Advance.apply, drainTurnAt, drainPass_issued_of_vacant hsound hvacant, hissued,
        List.append_nil]
      exact h.calls
    · exact (h.sheds.trans (complete_sheds s.scheduler c heard)).trans (drainPass_sheds hsound)

/-- When no call is under way any more, all runs are pending, -/
theorem Drains.pending (h : start.Drains calls s) (hreach : ReachedBy P config s)
    (hidle : s.underWay = []) {id : String} {run : Run κ}
    (hrun : s.scheduler.registry.runs.get? id = some run) :
    run.executor = none ∧ run.startedAt = none ∧ run.stopping = false := by
  have hst : run.stopping = false := hreach.not_stopping hidle hrun
  have hexec : run.executor = none := by
    refine Option.not_isSome_iff_eq_none.1 fun hbound => ?_
    exact h.vacant id run hrun ⟨hbound, hst⟩
  exact ⟨hexec, (hreach.sound.shaped hrun).unstarted_of_pending (Run.isPending_iff.2 ⟨hexec, hst⟩),
    hst⟩

/-- the jobs that were to be removed are gone, -/
theorem Drains.removed (h : start.Drains calls s) (hreach : ReachedBy P config s)
    (hidle : s.underWay = []) {id : String} {run : Run κ}
    (hrun : start.scheduler.registry.runs.get? id = some run) (hremoving : run.removing = true) :
    s.scheduler.registry.jobs.get? id = none ∧ s.scheduler.registry.runs.get? id = none := by
  have hgone : s.scheduler.registry.jobs.get? id = none := by
    refine Option.eq_none_iff_forall_not_mem.2 fun job hjob => ?_
    obtain ⟨run', hrun'⟩ := hreach.sound.run_of_job hjob
    obtain ⟨run₀, hrun₀, hsame⟩ := h.sheds.runs id run' hrun'
    obtain rfl : run₀ = run := Option.some.inj (hrun₀.symm.trans hrun)
    have hst := (h.pending hreach hidle hrun').2.2
    rw [hsame, (hreach.sound.shaped hrun').removing_eq_false hst] at hremoving
    cases hremoving
  exact ⟨hgone, hreach.sound.get?_runs_eq_none hgone⟩

omit [Quantity κ] in
/-- and all others are registered as before. -/
theorem Drains.kept (h : start.Drains calls s) {id : String}
    (hstays : ∀ run, start.scheduler.registry.runs.get? id = some run → run.removing = false) :
    s.scheduler.registry.jobs.get? id = start.scheduler.registry.jobs.get? id := by
  rcases h.sheds.jobs id with hsame | ⟨-, run, hrun, hremoving⟩
  · exact hsame
  · rw [hstays run hrun] at hremoving
    cases hremoving

end Session

/-- **A drain is complete.**  From the moment on at which the loop is left, the calls issued are a
stop call for each placed run, and no others.  The drain ends exactly when no call is under way, and
then all runs are pending, the jobs that were to be removed are gone and all others registered. -/
theorem drain_complete {config : Config κ} {start left later : Session κ} {queued : List Ticket}
    (h : Reachable config start) (leave : start.Step (.leave queued looked shown) left)
    (drain : left.LeadsBy (fun _ _ => True) later) :
    (∃ calls, later.calls = start.calls ++ calls ∧ (∀ call ∈ calls, call.kind = .stop ∧
          ∃ run, start.scheduler.registry.runs.get? call.run.job.id = some run ∧
            call.run = run.stop false looked) ∧
        ∀ id run, start.scheduler.registry.runs.get? id = some run →
          calls.countP (·.run.job.id = id) = if run.IsPlaced then 1 else 0) ∧
      (later.scheduler.stage = .ended ↔ later.underWay = []) ∧
      (later.scheduler.stage = .ended →
        (∀ id run, later.scheduler.registry.runs.get? id = some run →
          run.executor = none ∧ run.startedAt = none ∧ run.stopping = false) ∧
        (∀ id run, start.scheduler.registry.runs.get? id = some run → run.removing = true →
          later.scheduler.registry.jobs.get? id = none ∧
            later.scheduler.registry.runs.get? id = none) ∧
        ∀ id, (∀ run, start.scheduler.registry.runs.get? id = some run → run.removing = false) →
          later.scheduler.registry.jobs.get? id = start.scheduler.registry.jobs.get? id) := by
  have hleft : Reachable config left := .step h trivial leave
  have hdrains : start.Drains (start.scheduler.finalCalls looked) later :=
    drain.invariant (leave.drains h) fun _ _ _ hleads hdrains _ hstep =>
      hdrains.step (hleads.reachedBy hleft) hstep
  have hlater : Reachable config later := drain.reachedBy hleft
  have hended : later.scheduler.stage = .ended ↔ later.underWay = [] := by
    rw [hdrains.ended, hlater.inFlight_eq, List.length_eq_zero_iff]
  obtain ⟨hstops, hcount⟩ := finalCalls_spec h.sound looked
  refine ⟨⟨_, hdrains.calls, hstops, hcount⟩, hended, fun hover => ?_⟩
  have hidle := hended.1 hover
  exact ⟨fun _ _ => hdrains.pending hlater hidle, fun _ _ => hdrains.removed hlater hidle,
    fun _ => hdrains.kept⟩

/-- One job is removed while it is being started, and another one is being started, when the loop is
left. -/
def halfRemoved : Session ℚ :=
  (Session.play (fun _ _ => true) { scheduler := { config := ownerConfirms }, now := 0 }
    [(0, .request (.addExecutor { id := "A", capacity := 10 })),
      (0, .request (.addJob { id := "j", cost := 1 })),
      (0, .request (.removeJob "j")),
      (0, .request (.addJob { id := "k", cost := 1 }))]).get (by decide +kernel)

def halfRemovedLeft : Session ℚ := halfRemoved.after (.leave [] 0 0) halfRemoved.underWay

/-- All calls have failed, the start of the second job as the last one. -/
def halfRemovedEnded : Session ℚ :=
  (halfRemovedLeft.play (fun _ _ => true)
    [(0, .answer 3 (.error .cancelled)), (0, .answer 0 (.error .cancelled)),
      (0, .answer 0 (.error .cancelled)), (0, .answer 0 (.error .cancelled))]).get
    (by decide +kernel)

/-- The second job is pending in the end and the first one is gone. -/
theorem drain_complete_halfRemoved :
    halfRemovedEnded.scheduler.stage = .ended ∧
      halfRemovedEnded.scheduler.registry.jobs.get? "j" = none ∧
      ∃ run, halfRemovedEnded.scheduler.registry.runs.get? "k" = some run ∧
        run.executor = none ∧ run.stopping = false := by
  have hreached : Reachable ownerConfirms halfRemoved :=
    Session.play_reachedBy (fun _ _ _ => trivial) (.start 0 (by decide +kernel))
      (Option.some_get _).symm
  have hleave : halfRemoved.Step (.leave [] 0 0) halfRemovedLeft :=
    ⟨by decide +kernel, by decide +kernel, _, rfl, rfl⟩
  have hdrain : halfRemovedLeft.LeadsBy (fun _ _ => True) halfRemovedEnded :=
    Session.play_leadsBy (fun _ _ _ => trivial) .refl (Option.some_get _).symm
  have hended : halfRemovedEnded.scheduler.stage = .ended := by decide +kernel
  obtain ⟨hpending, hremoved, -⟩ := (drain_complete hreached hleave hdrain).2.2 hended
  have hremoving : (halfRemoved.scheduler.registry.runs.get? "j").map (·.removing) =
      some true := by decide +kernel
  obtain ⟨run, hrun, hrm⟩ := Option.map_eq_some_iff.1 hremoving
  have hstays : (halfRemovedEnded.scheduler.registry.runs.get? "k").isSome := by decide +kernel
  obtain ⟨run', hrun'⟩ := Option.isSome_iff_exists.1 hstays
  obtain ⟨hexec, -, hst⟩ := hpending "k" run' hrun'
  exact ⟨hended, (hremoved "j" run hrun hrm).1, run', hrun', hexec, hst⟩

end Dispatch
