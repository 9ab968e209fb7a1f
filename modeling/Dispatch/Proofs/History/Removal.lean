import Dispatch.Proofs.History.Keeping
import Dispatch.Proofs.History.Late

/-!
# How jobs come and go

A job that is to be removed goes at once when it is on no executor, and otherwise when its stop is
over; until then its run is leaving.

* `Scheduler.stopRun_releases`, `Advance.Removes.takeIn` : what an accepted removal leaves;
* `Advance.takeIn_parted`, `Advance.apply_starts` : a job that is gone or leaving stays so until it
  is added again, and no start call is issued for it;
* `Advance.takeIn_leaving`, `Advance.EndsStop.apply` : a run that is leaving is the same until its
  stop call is back, and then it is gone;
* `Advance.apply_staying` : no other run goes;
* `Session.LeadsBy.parted`, `Session.LeadsBy.leaving`, `Session.LeadsBy.holds` : the same along a
  history;
* `removal_final` : **the lifetime of a job**, from the addition that is accepted to the removal
  that is accepted, and what follows that;
* `leaving_refuses_invalid` : a request to add a job that is leaving need not be refused because the
  job exists; its cost is looked at first.
-/

namespace Dispatch

open Scheduler

variable {κ : Type}

/-- There is no run of the job, or it is leaving. -/
def Registry.Parted (r : Registry κ) (id : String) : Prop :=
  ∀ run, r.runs.get? id = some run → run.IsLeaving

/-- The job is not registered. -/
def Registry.Lacks (r : Registry κ) (id : String) : Prop :=
  r.jobs.get? id = none ∧ r.runs.get? id = none

/-- The job is registered, with a run that stays. -/
def Registry.Holds (r : Registry κ) (id : String) (ordinal : Nat) : Prop :=
  ∃ job run, r.jobs.get? id = some job ∧ r.runs.get? id = some run ∧ run.ordinal = ordinal ∧
    run.removing = false

/-- The start calls issued so far for a job. -/
def Session.startsOf (s : Session κ) (id : String) : List (Call κ) :=
  s.calls.filter fun c => c.kind = .start ∧ c.run.job.id = id

namespace Registry

variable {r r' : Registry κ} {id : String}

theorem Parted.of_none (h : r.runs.get? id = none) : r.Parted id := by
  intro run hrun
  rw [h] at hrun
  cases hrun

theorem Keeps.parted (h : Keeps id r r') (hparted : r.Parted id) : r'.Parted id := by
  cases hrun : r.runs.get? id with
  | none => exact .of_none (h.absent hrun)
  | some run =>
    intro run' hrun'
    rw [h.leaving run hrun (hparted run hrun), Option.some.injEq] at hrun'
    exact hrun' ▸ hparted run hrun

/-- Without a run there is no job, -/
theorem Sound.lacks [Quantity κ] (h : r.Sound) (hnone : r.runs.get? id = none) : r.Lacks id := by
  refine ⟨?_, hnone⟩
  rw [Table.get?_eq_none_iff, h.ids, ← Table.get?_eq_none_iff]
  exact hnone

/-- and with one there is. -/
theorem Sound.holds [Quantity κ] (h : r.Sound) {run : Run κ} (hrun : r.runs.get? id = some run)
    (hstays : run.removing = false) : r.Holds id run.ordinal := by
  obtain ⟨job, hjob⟩ := h.job_of_run hrun
  exact ⟨job, run, hjob, hrun, rfl, hstays⟩

end Registry

/-- What a removal leaves of a run: nothing if it was pending, and otherwise a run that is leaving,
the same one if it was. -/
structure Registry.Releases (r : Registry κ) (id : String) (run : Run κ) : Prop where
  pending : run.isPending = true → r.runs.get? id = none
  placed : run.isPending = false → ∃ run', r.runs.get? id = some run' ∧ run'.IsLeaving ∧
    run'.ordinal = run.ordinal ∧ (run.IsLeaving → run' = run)

namespace Registry.Releases

variable {r r' : Registry κ} {id : String} {run : Run κ}

theorem parted (h : r.Releases id run) : r.Parted id := by
  cases hpending : run.isPending with
  | true => exact .of_none (h.pending hpending)
  | false =>
    obtain ⟨left, hleft, hleaves, -⟩ := h.placed hpending
    intro run' hrun'
    obtain rfl : left = run' := Option.some.inj (hleft.symm.trans hrun')
    exact hleaves

theorem keeps (h : r.Releases id run) (hkeeps : Keeps id r r') : r'.Releases id run where
  pending hpending := hkeeps.absent (h.pending hpending)
  placed hpending := by
    obtain ⟨left, hleft, hleaves, hordinal, hsame⟩ := h.placed hpending
    exact ⟨left, hkeeps.leaving left hleft hleaves, hleaves, hordinal, hsame⟩

theorem of_leaving (h : r.Releases id run) (hleaves : run.IsLeaving) :
    r.runs.get? id = some run := by
  obtain ⟨left, hleft, -, -, hsame⟩ := h.placed (by simp [Run.isPending, hleaves.1])
  rw [hleft, hsame hleaves]

end Registry.Releases

theorem Scheduler.stopRun_releases {s : Scheduler κ} {id : String} {run : Run κ} {now : Instant}
    (hrun : s.registry.runs.get? id = some run) :
    (s.stopRun id true now).1.registry.Releases id run := by
  cases hst : run.stopping with
  | true =>
    refine ⟨fun hpending => ?_, fun _ => ?_⟩
    · simp [Run.isPending, hst] at hpending
    cases hrm : run.removing with
    | true =>
      refine ⟨run, ?_, ⟨hst, hrm⟩, rfl, fun _ => rfl⟩
      simp [stopRun, hrun, hst, hrm]
    | false =>
      refine ⟨{ run with removing := true }, ?_, ⟨hst, rfl⟩, rfl, fun hleaves => ?_⟩
      · simp [stopRun, hrun, hst, hrm, Registry.get?_modifyRun hrun]
      · cases hrm.symm.trans hleaves.2
  | false =>
    cases hexec : run.executor with
    | none =>
      refine ⟨fun _ => ?_, fun hplaced => ?_⟩
      · simp [stopRun, hrun, hst, hexec, Registry.removeRun, Table.get?_erase]
      · simp [Run.isPending, hexec, hst] at hplaced
    | some executor =>
      refine ⟨fun hpending => ?_, fun _ => ?_⟩
      · simp [Run.isPending, hexec] at hpending
      refine ⟨run.stop true now, ?_, ⟨rfl, rfl⟩, rfl, fun hleaves => ?_⟩
      · simp [stopRun, hrun, hst, hexec, Registry.get?_modifyRun hrun]
      · cases hst.symm.trans hleaves.1

/-- Calls that go with deeds of other kinds are no start calls. -/
theorem Shifts.issued_ne_start {now : Instant} {s s' : Scheduler κ} {d : Deed κ}
    (h : Shifts now s s' d) (hd : d.callKind? ≠ some .start)
    (hissued : ∀ call ∈ s.issued, call.kind ≠ .start) : ∀ call ∈ s'.issued, call.kind ≠ .start := by
  cases h with
  | same _ _ _ issued => rwa [issued]
  | fresh _ _ _ _ _ issued => rwa [issued]
  | gone _ _ _ _ _ _ issued => rwa [issued]
  | shifted _ _ _ call? _ _ _ _ issued kind =>
    rw [issued]
    intro call hcall
    rcases List.mem_append.1 hcall with hcall | hcall
    · exact hissued call hcall
    · rw [Option.mem_toList] at hcall
      rw [hcall, Option.map_some] at kind
      rintro hstart
      exact hd (by rw [← kind, hstart])

variable [Quantity κ] {s : Scheduler κ} {a : Advance κ} {id : String} {run : Run κ}

/-- A job that is registered is not added once more. -/
theorem Scheduler.handle_addJob_registered {job : Job κ} {now : Instant}
    (hsound : s.registry.Sound) (hrun : s.registry.runs.get? job.id = some run) :
    s.handle (.addJob job) now =
      (s, if Quantity.isValid job.cost then .error (.jobExists job.id)
        else Registry.checkCost job) := by
  obtain ⟨definition, hjob⟩ := hsound.job_of_run hrun
  have hknown : s.registry.jobs.contains job.id = true := by simp [Table.contains, hjob]
  cases hvalid : Quantity.isValid job.cost <;>
    simp [handle, Registry.addJob, Registry.checkCost, hvalid, hknown]

namespace Advance

/-! ### What is taken in -/

/-- **A job is added** when there is none of its id, with a run of its own. -/
theorem Adds.takeIn (h : a.Adds s id) (hsound : s.registry.Sound) :
    s.registry.runs.get? id = none ∧ ∃ job, (a.takeIn s).registry.runs.get? id =
      some { job, ordinal := s.registry.nextOrdinal } := by
  obtain ⟨job, hcommand, rfl, hok⟩ := h
  rw [takeIn_command hcommand nofun]
  cases hr : s.registry.addJob job with
  | error e => simp [handle, hr] at hok
  | ok r =>
    obtain ⟨-, hnew, rfl⟩ := Registry.of_addJob hr
    have hnone := hsound.get?_runs_eq_none hnew
    refine ⟨hnone, job, ?_⟩
    simp only [handle, hr, nameJob_registry, enter_registry]
    rw [Table.get?_addNew, if_pos rfl, hnone, Option.none_or]

/-- **A removal** is of a job that is registered. -/
theorem Removes.takeIn (h : a.Removes s id) : ∃ run, s.registry.runs.get? id = some run ∧
    (a.takeIn s).registry.Releases id run := by
  obtain ⟨hcommand, hok⟩ := h
  rw [takeIn_command hcommand nofun]
  cases hrun : s.registry.runs.get? id with
  | none => simp [handle, stopRun, hrun] at hok
  | some run => exact ⟨run, rfl, stopRun_releases hrun⟩

omit [Quantity κ] in
/-- Only a stop call ends a stop, and only a job that is leaving goes with it. -/
theorem of_effect?_finish {c : Completion} (h : s.effect? c = some (.finish id)) :
    ∃ run, s.registry.runs.get? id = some run ∧ run.IsLeaving ∧ c.kind = .stop ∧ c.job = id := by
  obtain ⟨run, hrun, -, hreturns⟩ := effect?_eq_some_iff.1 h
  cases hreturns with
  | finish kind stopping removing => exact ⟨run, hrun, ⟨stopping, removing⟩, kind, rfl⟩

/-- A stop that is over leaves nothing of a job that is to go. -/
theorem takeIn_finish {c : Completion} (hc : a.completion? = some c)
    (hd : s.effect? c = some (.finish id)) : (a.takeIn s).registry.runs.get? id = none := by
  rw [takeIn_completion hc]
  rcases complete_eq s c a.heard with ⟨hnone, -⟩ | ⟨d, hd', hdoes⟩
  · rw [hd] at hnone
    cases hnone
  · obtain rfl : .finish id = d := Option.some.inj (hd.symm.trans hd')
    generalize s.complete c a.heard = s' at hdoes ⊢
    cases hdoes with
    | finish => simp [Registry.removeRun, Table.get?_erase]

/-- A job that is not registered and is not added is not registered afterwards. -/
theorem takeIn_absent (hsound : s.registry.Sound) (hnone : s.registry.runs.get? id = none)
    (hadds : ¬ a.Adds s id) : (a.takeIn s).registry.runs.get? id = none := by
  refine (takeIn_keeps hsound hadds (fun hremoves => ?_) fun c _ hd => ?_).absent hnone
  · obtain ⟨run, hrun, -⟩ := hremoves.takeIn
    rw [hnone] at hrun
    cases hrun
  · obtain ⟨run, hrun, -⟩ := of_effect?_finish hd
    rw [hnone] at hrun
    cases hrun

theorem not_adds_of_registered (hsound : s.registry.Sound)
    (hrun : s.registry.runs.get? id = some run) : ¬ a.Adds s id := by
  intro hadds
  rw [(hadds.takeIn hsound).1] at hrun
  cases hrun

/-- A run that is leaving is the same until its stop is over, even when its job is to be removed
once more. -/
theorem takeIn_leaving (hsound : s.registry.Sound) (hrun : s.registry.runs.get? id = some run)
    (hleaves : run.IsLeaving)
    (hends : ∀ c, a.completion? = some c → s.effect? c ≠ some (.finish id)) :
    (a.takeIn s).registry.runs.get? id = some run := by
  by_cases hremoves : a.Removes s id
  · obtain ⟨run', hrun', hleft⟩ := hremoves.takeIn
    obtain rfl : run = run' := Option.some.inj (hrun.symm.trans hrun')
    exact hleft.of_leaving hleaves
  · exact (takeIn_keeps hsound (not_adds_of_registered hsound hrun) hremoves hends).leaving
      run hrun hleaves

/-- **A job that has parted** stays so until it is added again. -/
theorem takeIn_parted (hsound : s.registry.Sound) (hparted : s.registry.Parted id)
    (hadds : ¬ a.Adds s id) : (a.takeIn s).registry.Parted id := by
  cases hrun : s.registry.runs.get? id with
  | none => exact .of_none (takeIn_absent hsound hrun hadds)
  | some run =>
    by_cases hfinish : ∃ c, a.completion? = some c ∧ s.effect? c = some (.finish id)
    · obtain ⟨c, hc, hd⟩ := hfinish
      exact .of_none (takeIn_finish hc hd)
    · have hleft := takeIn_leaving hsound hrun (hparted run hrun)
        fun c hc hd => hfinish ⟨c, hc, hd⟩
      intro run' hrun'
      obtain rfl : run = run' := Option.some.inj (hleft.symm.trans hrun')
      exact hparted run hrun

/-! ### Whole advances -/

/-- A run that stays goes on to stay unless its job is to be removed. -/
theorem apply_staying (hsound : s.registry.Sound) (hrun : s.registry.runs.get? id = some run)
    (hstays : run.removing = false) (hremoves : ¬ a.Removes s id) :
    ∃ run', (a.apply s).registry.runs.get? id = some run' ∧ run'.ordinal = run.ordinal ∧
      run'.removing = false := by
  refine (apply_keeps hsound (not_adds_of_registered hsound hrun) hremoves
    fun c _ hd => ?_).staying run hrun hstays
  obtain ⟨run', hrun', hleaves, -⟩ := of_effect?_finish hd
  obtain rfl : run = run' := Option.some.inj (hrun.symm.trans hrun')
  cases hstays.symm.trans hleaves.2

/-- What is taken in issues no start call. -/
theorem takeIn_issued_ne_start (hsound : s.registry.Sound) (hempty : s.issued = []) :
    ∀ call ∈ (a.takeIn s).issued, call.kind ≠ .start := by
  have hgrants : a.GrantsIntake (fun _ _ d => d.callKind? ≠ some .start) s := by
    refine ⟨?_, ?_, ?_, ?_, ?_, ?_, ?_, ?_⟩
    · intro s d hd
      cases d <;> first | exact hd.elim | exact nofun
    · exact fun _ _ => nofun
    · intro c d _ hd
      obtain ⟨_, -, -, hreturns⟩ := effect?_eq_some_iff.1 hd
      cases hreturns <;> exact nofun
    · exact fun _ _ _ _ _ _ => nofun
    · exact fun _ _ _ _ _ _ => nofun
    · exact fun _ _ _ _ _ _ _ _ _ _ _ _ _ _ _ _ _ _ => nofun
    · exact fun _ _ _ _ _ _ _ _ _ => nofun
    · exact fun _ _ _ _ _ _ => nofun
  refine (takeIn_course hsound.run_key hgrants).invariant_of_sound
    (I := fun s => ∀ call ∈ s.issued, call.kind ≠ .start) hsound (by simp [hempty]) ?_
  intro now s d s' hsound hissued hd hdoes
  exact (hdoes.shifts hsound).issued_ne_start hd hissued

/-- **No start call is issued for a job that has parted.** -/
theorem apply_starts (hsound : s.registry.Sound) (hempty : s.issued = [])
    (hparted : (a.takeIn s).registry.Parted id) :
    ∀ call ∈ (a.apply s).issued, call.kind = .start → call.run.job.id ≠ id := by
  obtain ⟨calls, hpursues⟩ := a.pursues hsound
  rw [hpursues.issued]
  rintro call hcall hstart rfl
  rcases List.mem_append.1 hcall with hcall | hcall
  · exact takeIn_issued_ne_start hsound hempty call hcall hstart
  · cases hpursues.acts call hcall with
    | stop _ _ _ kind => cases hstart.symm.trans kind
    | start run _ _ found pending =>
      have hstops := (hparted run found).1
      rw [(Run.isPending_iff.1 pending).2] at hstops
      cases hstops

/-- **An accepted addition** leaves a run of its own, that stays. -/
theorem Adds.apply (h : a.Adds s id) (hsound : s.registry.Sound) :
    s.registry.runs.get? id = none ∧ ∃ run, (a.apply s).registry.runs.get? id = some run ∧
      run.ordinal = s.registry.nextOrdinal ∧ run.removing = false := by
  obtain ⟨hnone, job, hrun⟩ := h.takeIn hsound
  exact ⟨hnone, (sequel_keeps hsound).staying _ hrun rfl⟩

/-- **The end of its stop** leaves nothing of a job that is leaving. -/
theorem EndsStop.apply {calls rest : List (Call κ)} (h : a.EndsStop id)
    (hsound : s.registry.Sound) (hbooked : StopsBooked calls s.registry)
    (htakes : Takes calls a.completion? rest) (hrun : s.registry.runs.get? id = some run)
    (hleaves : run.IsLeaving) : (a.apply s).registry.runs.get? id = none := by
  obtain ⟨c, hc, hkind, rfl⟩ := h
  rw [hc] at htakes
  obtain ⟨before, call, after, result, rfl, rfl, -⟩ := htakes
  -- the call that comes back is that of the present attempt
  obtain ⟨hposition, -⟩ := hbooked.position call (by simp) hkind
  have hsame : some run.position = some call.run.position :=
    (Registry.position?_of_get? hrun).symm.trans hposition
  have hattempt : run.attempt = call.run.attempt :=
    congrArg Position.attempt (Option.some.inj hsame)
  have hfinish : s.effect? (call.completion result) = some (.finish call.run.job.id) :=
    effect?_eq_some_iff.2 ⟨run, hrun, hattempt, .finish hkind hleaves.1 hleaves.2⟩
  exact (sequel_keeps hsound).absent (takeIn_finish hc hfinish)

end Advance

/-! ### Histories -/

section Histories

variable {config : Config κ} {session later : Session κ}

theorem Session.startsOf_after {rest : List (Call κ)}
    (h : ∀ call ∈ (a.apply session.scheduler).issued, call.kind = .start → call.run.job.id ≠ id) :
    (session.after a rest).startsOf id = session.startsOf id := by
  have hnone : (a.apply session.scheduler).issued.filter
      (fun c => c.kind = .start ∧ c.run.job.id = id) = [] := by
    simpa [List.filter_eq_nil_iff] using h
  rw [startsOf, calls_after, List.filter_append, hnone, List.append_nil, startsOf]

namespace Session.LeadsBy

/-- A job that has parted stays so and is not started, until it is added again. -/
theorem parted (hlead : session.LeadsBy (fun s a => ¬ a.Adds s id) later)
    (h : Reachable config session) (hparted : session.scheduler.registry.Parted id) :
    later.scheduler.registry.Parted id ∧ later.startsOf id = session.startsOf id := by
  refine hlead.invariant (I := fun later => later.scheduler.registry.Parted id ∧
    later.startsOf id = session.startsOf id) ⟨hparted, rfl⟩ ?_
  rintro s₁ a _ hlead ⟨hparted, hsame⟩ hadds ⟨-, -, rest, -, rfl⟩
  have hreach := hlead.reachable h
  have htaken := Advance.takeIn_parted hreach.sound hparted hadds
  have hstarts := Advance.apply_starts hreach.sound hreach.issued_eq_nil htaken
  exact ⟨(Advance.sequel_keeps hreach.sound).parted htaken,
    (Session.startsOf_after hstarts).trans hsame⟩

/-- A run that is leaving is the same until its stop call is back. -/
theorem leaving (hlead : session.LeadsBy (fun _ a => ¬ a.EndsStop id) later)
    (h : Reachable config session)
    (hrun : session.scheduler.registry.runs.get? id = some run) (hleaves : run.IsLeaving) :
    later.scheduler.registry.runs.get? id = some run := by
  refine hlead.invariant (I := fun later => later.scheduler.registry.runs.get? id = some run)
    hrun ?_
  rintro s₁ a _ hlead hrun hends ⟨-, -, rest, -, rfl⟩
  have hsound := (hlead.reachable h).sound
  refine (Advance.sequel_keeps hsound).leaving run ?_ hleaves
  refine Advance.takeIn_leaving hsound hrun hleaves fun c hc hd => ?_
  obtain ⟨-, -, -, hkind, hjob⟩ := Advance.of_effect?_finish hd
  exact hends ⟨c, hc, hkind, hjob⟩

/-- A run that stays goes on to stay until a removal of its job is accepted. -/
theorem holds (hlead : session.LeadsBy (fun s a => ¬ a.Removes s id) later)
    (h : Reachable config session) {ordinal : Nat}
    (hholds : session.scheduler.registry.Holds id ordinal) :
    later.scheduler.registry.Holds id ordinal := by
  refine hlead.invariant (I := fun later => later.scheduler.registry.Holds id ordinal) hholds ?_
  rintro s₁ a s₂ hlead ⟨-, run, -, hrun, rfl, hstays⟩ hremoves hstep
  have hreach := hlead.reachable h
  have hnext : Reachable config s₂ := .step hreach trivial hstep
  obtain ⟨-, -, rest, -, rfl⟩ := hstep
  obtain ⟨run', hrun', hordinal, hstays'⟩ :=
    Advance.apply_staying hreach.sound hrun hstays hremoves
  rw [← hordinal]
  exact hnext.sound.holds hrun' hstays'

end Session.LeadsBy

end Histories

/-- **The lifetime of a job.**  A removal that is accepted deletes a pending run at once and leaves
any other leaving; and until the job is added again, there is no run of it that is not leaving, and
no start call is issued for it.  While a run is leaving its stop call is under way, the job cannot
be added, and the run stays the same up to the end of the stop, whatever its result, which deletes
it.  A run that is not leaving stays registered until a removal of its job is accepted.  A job is
added only when it is not registered, and its run is then a new one. -/
theorem removal_final {config : Config κ} {session : Session κ} (h : Reachable config session)
    (id : String) :
    (∀ a next, session.Step a next → a.Removes session.scheduler id →
      (∃ run, session.scheduler.registry.runs.get? id = some run ∧
        (run.isPending = true → next.scheduler.registry.Lacks id) ∧
        (run.isPending = false → ∃ run', next.scheduler.registry.runs.get? id = some run' ∧
          run'.IsLeaving ∧ run'.ordinal = run.ordinal)) ∧
      ∀ later, next.LeadsBy (fun s a => ¬ a.Adds s id) later →
        later.scheduler.registry.Parted id ∧ later.startsOf id = session.startsOf id) ∧
    (∀ run, session.scheduler.registry.runs.get? id = some run → run.IsLeaving →
      (∃ call ∈ session.underWay, call.kind = .stop ∧ call.run.job.id = id ∧
        call.run.position = run.position) ∧
      (∀ (job : Job κ) now, job.id = id → session.scheduler.handle (.addJob job) now =
        (session.scheduler, if Quantity.isValid job.cost then .error (.jobExists id)
          else Registry.checkCost job)) ∧
      (∀ later, session.LeadsBy (fun _ a => ¬ a.EndsStop id) later →
        later.scheduler.registry.runs.get? id = some run) ∧
      ∀ a next, session.Step a next → a.EndsStop id → next.scheduler.registry.Lacks id) ∧
    (∀ ordinal, session.scheduler.registry.Holds id ordinal →
      ∀ later, session.LeadsBy (fun s a => ¬ a.Removes s id) later →
        later.scheduler.registry.Holds id ordinal) ∧
    ∀ a next, session.Step a next → a.Adds session.scheduler id →
      session.scheduler.registry.Lacks id ∧
        next.scheduler.registry.Holds id session.scheduler.registry.nextOrdinal := by
  refine ⟨fun a next hstep hremoves => ⟨?_, fun later hlater => ?_⟩,
    fun run hrun hleaves => ⟨?_, ?_, ?_, ?_⟩, ?_, ?_⟩
  · have hnext : Reachable config next := .step h trivial hstep
    obtain ⟨-, -, rest, -, rfl⟩ := hstep
    obtain ⟨run, hrun, hreleases⟩ := hremoves.takeIn
    have hleft := hreleases.keeps (Advance.sequel_keeps h.sound)
    refine ⟨run, hrun, fun hpending => hnext.sound.lacks (hleft.pending hpending), ?_⟩
    intro hplaced
    obtain ⟨run', hrun', hleaves, hordinal, -⟩ := hleft.placed hplaced
    exact ⟨run', hrun', hleaves, hordinal⟩
  · have hnext : Reachable config next := .step h trivial hstep
    obtain ⟨-, -, rest, -, rfl⟩ := hstep
    obtain ⟨run, -, hreleases⟩ := hremoves.takeIn
    have hstarts := Advance.apply_starts h.sound h.issued_eq_nil hreleases.parted
    obtain ⟨hparted, hsame⟩ :=
      hlater.parted hnext ((Advance.sequel_keeps h.sound).parted hreleases.parted)
    exact ⟨hparted, hsame.trans (Session.startsOf_after hstarts)⟩
  · obtain ⟨call, hcall, hkind, hjob⟩ :=
      h.stopsBooked.awaited id run.position (Registry.position?_of_get? hrun) hleaves.1
    refine ⟨call, hcall, hkind, hjob, ?_⟩
    have hposition := (h.stopsBooked.position call hcall hkind).1
    rw [hjob, Registry.position?_of_get? hrun] at hposition
    exact (Option.some.inj hposition).symm
  · rintro job now rfl
    exact handle_addJob_registered h.sound hrun
  · exact fun later hlater => hlater.leaving h hrun hleaves
  · intro a next hstep hends
    have hnext : Reachable config next := .step h trivial hstep
    obtain ⟨-, -, rest, htakes, rfl⟩ := hstep
    exact hnext.sound.lacks (hends.apply h.sound h.stopsBooked htakes hrun hleaves)
  · exact fun ordinal hholds later hlater => hlater.holds h hholds
  · intro a next hstep hadds
    have hnext : Reachable config next := .step h trivial hstep
    obtain ⟨-, -, rest, -, rfl⟩ := hstep
    obtain ⟨hnone, run, hrun, hordinal, hstays⟩ := hadds.apply h.sound
    refine ⟨h.sound.lacks hnone, ?_⟩
    rw [← hordinal]
    exact hnext.sound.holds hrun hstays

/-- A job has been started and its start call is under way. -/
def oneStarting : Session ℚ :=
  (Session.play (fun _ _ => true) { scheduler := { config := ownerConfirms }, now := 0 }
    [(0, .request (.addExecutor { id := "A", capacity := 10 })),
      (0, .request (.addJob { id := "j", cost := 1 }))]).get (by decide +kernel)

theorem oneStarting_reachable : Reachable ownerConfirms oneStarting :=
  Session.play_reachedBy (fun _ _ _ => trivial) (.start 0 (by decide +kernel))
    (Option.some_get _).symm

/-- It is removed, and not started again. -/
theorem removal_final_oneStarting :
    ∃ a next, oneStarting.Step a next ∧ a.Removes oneStarting.scheduler "j" ∧
      (∃ run, next.scheduler.registry.runs.get? "j" = some run ∧ run.IsLeaving) ∧
      ∀ later, next.LeadsBy (fun s a => ¬ a.Adds s "j") later →
        later.startsOf "j" = oneStarting.startsOf "j" := by
  have hstep : oneStarting.Step (.turn (.request 0 (.removeJob "j")) 0 0 0) (oneStarting.after
      (.turn (.request 0 (.removeJob "j")) 0 0 0) oneStarting.underWay) :=
    ⟨by decide +kernel, by decide +kernel, oneStarting.underWay, rfl, rfl⟩
  have hremoves : (Advance.turn (.request 0 (.removeJob "j")) 0 0 0).Removes
      oneStarting.scheduler "j" := ⟨rfl, by decide +kernel⟩
  have hplaced : (oneStarting.scheduler.registry.runs.get? "j").map (·.isPending) = some false := by
    decide +kernel
  obtain ⟨⟨run, hrun, -, hleft⟩, hlater⟩ :=
    (removal_final oneStarting_reachable "j").1 _ _ hstep hremoves
  rw [hrun, Option.map_some, Option.some.injEq] at hplaced
  obtain ⟨run', hrun', hleaves, -⟩ := hleft hplaced
  exact ⟨_, _, hstep, hremoves, ⟨run', hrun', hleaves⟩, fun later h => (hlater later h).2⟩

/-- The job has been removed while it was starting. -/
def oneLeaving : Session ℚ :=
  (oneStarting.play (fun _ _ => true) [(0, .request (.removeJob "j"))]).get (by decide +kernel)

/-- While a job is leaving, a request to add it at a cost that is not valid is refused for its
cost. -/
theorem leaving_refuses_invalid :
    Reachable ownerConfirms oneLeaving ∧
      (∃ run ∈ oneLeaving.scheduler.registry.runs.get? "j", run.IsLeaving) ∧
      (oneLeaving.scheduler.handle (.addJob { id := "j", cost := -1 }) 0).2 ≠
        .error (.jobExists "j") :=
  ⟨Session.play_reachedBy (fun _ _ _ => trivial) oneStarting_reachable (Option.some_get _).symm,
    by decide +kernel, by decide +kernel⟩

end Dispatch
