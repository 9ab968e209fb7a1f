import Dispatch.Proofs.History.Action
import Dispatch.Proofs.History.Late

/-!
# What becomes of a run that is running

A run that is confirmed to run is to leave its executor only by a stop call, or when the executor
says that it does not host the job.  There is one more way: a start call that comes back as failed,
under the attempt of the run, is taken for a failure of the start although the job has been
confirmed in the meantime.

* `Shifts.running` : what one deed does to a run that is running;
* `Advance.apply_running`, `Advance.Abandons.takeIn` : what an advance does to it;
* `running_kept_iff` : **a run that is running is kept, stopped or disowned, unless a failed start
  is taken in for it**, in one advance and along a history;
* `running_abandoned` : a history in which a job that is confirmed to run is started once more on
  another executor, and never stopped on the first one.
-/

namespace Dispatch

open Scheduler

variable {κ : Type}

/-- The advance takes in that the start of a run has failed: a start call comes back as failed under
its id and at its attempt. -/
def Advance.Abandons (a : Advance κ) (id : String) (p : Position) : Prop :=
  ∃ c cause, a.completion? = some c ∧ c.kind = .start ∧ c.job = id ∧ c.attempt = p.attempt ∧
    c.result = .error cause

/-- The advance takes in that the executor of a run hosts other jobs only. -/
def Advance.Disowns (a : Advance κ) (id : String) (p : Position) : Prop :=
  ∃ executor jobs, a.command? = some (.jobsOnExecutor executor jobs) ∧
    p.executor = some executor ∧ id ∉ jobs

/-- The call stops a run on the executor that it is on, in the next attempt. -/
structure Call.Stops (call : Call κ) (id : String) (p : Position) : Prop where
  kind : call.kind = .stop
  job : call.run.job.id = id
  position : ∃ executor, p.executor = some executor ∧ call.run.position = p.stop executor

variable {now : Instant} {s s' : Scheduler κ} {d : Deed κ} {id : String} {p : Position}

/-- A deed issues calls and takes none back. -/
theorem Shifts.issued_mono (h : Shifts now s s' d) : s.issued ⊆ s'.issued := by
  cases h with
  | same _ _ _ issued => rw [issued]; exact List.Subset.refl _
  | fresh _ _ _ _ _ issued => rw [issued]; exact List.Subset.refl _
  | gone _ _ _ _ _ _ issued => rw [issued]; exact List.Subset.refl _
  | shifted _ _ _ _ _ _ _ _ issued => rw [issued]; exact List.subset_append_left _ _

/-- **What a deed does to a run that is running**: it leaves it as it is or issues its stop call,
unless it takes it off its executor without one. -/
theorem Shifts.running (h : Shifts now s s' d) (hp : s.registry.position? id = some p)
    (hran : p.ranAt.isSome = true) (hplaced : p.IsPlaced) (hrelease : d ≠ .release id)
    (hforget : d ≠ .forget id) :
    s'.registry.position? id = some p ∨ ∃ call ∈ s'.issued, call.Stops id p := by
  have hbound : ¬ p.IsPending := fun hpending => by
    have hexec := hplaced.1
    rw [hpending.1] at hexec
    cases hexec
  have hstays : ¬ p.stopping = true := by simp [hplaced.2]
  cases h with
  | same _ positions => exact .inl ((positions id).trans hp)
  | fresh job _ positions old =>
    have hid : id ≠ job := by
      rintro rfl
      rw [old] at hp
      cases hp
    exact .inl (by rw [positions, if_neg hid, hp])
  | gone job q positions old off =>
    have hid : id ≠ job := by
      rintro rfl
      obtain rfl : q = p := Option.some.inj (old.symm.trans hp)
      rcases off with ⟨hpending, -⟩ | ⟨hstopping, -⟩
      · exact hbound hpending
      · exact hstays hstopping
    exact .inl (by rw [positions, if_neg hid, hp])
  | shifted job q q' call? positions old shift _ issued kind made =>
    by_cases hid : id = job
    · subst hid
      obtain rfl : q = p := Option.some.inj (old.symm.trans hp)
      cases shift with
      | stop executor remove here free =>
        obtain ⟨call, rfl, hkind⟩ := Option.map_eq_some_iff.1 kind
        obtain ⟨hposition, hjob⟩ := made call rfl
        exact .inr ⟨call, by simp [issued], hkind, hjob, executor, here, hposition⟩
      | start _ _ free => exact absurd free hbound
      | confirm waits =>
        rw [waits.2.1] at hran
        cases hran
      | release => exact absurd rfl hrelease
      | settle stopping => exact absurd stopping hstays
      | forget => exact absurd rfl hforget
      | adopt _ _ free => exact absurd free hbound
      | expel _ free => exact absurd free hbound
    · exact .inl (by rw [positions, if_neg hid, hp])

variable [Quantity κ] {a : Advance κ}

theorem Registry.Sound.placed_of_ran {r : Registry κ} (h : r.Sound)
    (hp : r.position? id = some p) (hran : p.ranAt.isSome = true) : p.IsPlaced := by
  obtain ⟨run, hrun, rfl⟩ := Registry.get?_of_position? hp
  have hshape := h.shaped hrun
  obtain ⟨hexec, -, hst⟩ := hshape.of_started (hshape.started_of_ran hran)
  exact ⟨hexec, hst⟩

namespace Advance

omit [Quantity κ] in
/-- What is taken in takes no run off its executor that it neither abandons nor disowns. -/
theorem grants_running (hp : s.registry.position? id = some p) (habandons : ¬ a.Abandons id p)
    (hdisowns : ¬ a.Disowns id p) :
    a.GrantsIntake (fun _ _ d => d ≠ .release id ∧ d ≠ .forget id) s where
  routine s d hd := by cases d <;> first | exact hd.elim | exact ⟨nofun, nofun⟩
  callBack _ _ := ⟨nofun, nofun⟩
  effect c d hc hd := by
    obtain ⟨run, hrun, hattempt, hreturns⟩ := effect?_eq_some_iff.1 hd
    cases hreturns with
    | confirm => exact ⟨nofun, nofun⟩
    | finish => exact ⟨nofun, nofun⟩
    | settle => exact ⟨nofun, nofun⟩
    | release cause kind result =>
      refine ⟨fun heq => ?_, nofun⟩
      obtain rfl : c.job = id := by simpa using heq
      rw [Registry.position?_of_get? hrun, Option.some.injEq] at hp
      exact habandons ⟨c, cause, hc, kind, rfl, by rw [← hattempt, ← hp]; rfl, result⟩
  add _ _ _ _ _ _ := ⟨nofun, nofun⟩
  change _ _ _ _ _ _ := ⟨nofun, nofun⟩
  forget ticket executor jobs heard looked shown ha s' id' run e _ _ hexec hout hrun _ _ := by
    refine ⟨nofun, fun heq => ?_⟩
    obtain rfl : id' = id := by simpa using heq
    rw [Registry.position?_of_get? hrun, Option.some.injEq] at hp
    exact hdisowns ⟨executor, jobs, by rw [ha]; rfl, by rw [← hp]; exact hexec, hout⟩
  adopt _ _ _ _ _ _ _ _ _ := ⟨nofun, nofun⟩
  redefine _ _ _ _ _ _ := ⟨nofun, nofun⟩

theorem takeIn_running (hsound : s.registry.Sound) (hp : s.registry.position? id = some p)
    (hran : p.ranAt.isSome = true) (habandons : ¬ a.Abandons id p) (hdisowns : ¬ a.Disowns id p) :
    (a.takeIn s).registry.position? id = some p ∨
      ∃ call ∈ (a.takeIn s).issued, call.Stops id p := by
  have hplaced := hsound.placed_of_ran hp hran
  refine (takeIn_course hsound.run_key (grants_running hp habandons hdisowns)).invariant_of_sound
    (I := fun s => s.registry.position? id = some p ∨ ∃ call ∈ s.issued, call.Stops id p)
    hsound (.inl hp) ?_
  rintro now s d s' hsound hkept ⟨hrelease, hforget⟩ hdoes
  have hshifts := hdoes.shifts hsound
  rcases hkept with hp | ⟨call, hcall, hstops⟩
  · exact hshifts.running hp hran hplaced hrelease hforget
  · exact .inr ⟨call, hshifts.issued_mono hcall, hstops⟩

/-- **What an advance does to a run that is running** and that it neither abandons nor disowns. -/
theorem apply_running (hsound : s.registry.Sound) (hp : s.registry.position? id = some p)
    (hran : p.ranAt.isSome = true) (habandons : ¬ a.Abandons id p) (hdisowns : ¬ a.Disowns id p) :
    (a.apply s).registry.position? id = some p ∨
      ∃ call ∈ (a.apply s).issued, call.Stops id p := by
  obtain ⟨calls, hpursues⟩ := a.pursues hsound
  rcases takeIn_running hsound hp hran habandons hdisowns with hp' | ⟨call, hcall, hstops⟩
  · rcases hpursues.runs id with hsame | ⟨call, hcall, rfl, -⟩
    · exact .inl (by rw [Registry.position?, hsame]; exact hp')
    · obtain ⟨run, hrun, hposition⟩ := Registry.get?_of_position? hp'
      have hplaced := hsound.placed_of_ran hp hran
      have hmem : call ∈ (a.apply s).issued := by
        rw [hpursues.issued]
        exact List.mem_append_right _ hcall
      refine .inr ⟨call, hmem, ?_⟩
      cases hpursues.acts call hcall with
      | stop run' found placed kind left =>
        obtain rfl : run = run' := Option.some.inj (hrun.symm.trans found)
        obtain ⟨executor, hexec⟩ := Option.isSome_iff_exists.1 placed.1
        refine ⟨kind, rfl, executor, by rw [← hposition]; exact hexec, ?_⟩
        rw [left, ← hposition]
        simp [Run.position, Run.stop, Position.stop, hexec]
      | start run' _ _ found pending =>
        obtain rfl : run = run' := Option.some.inj (hrun.symm.trans found)
        have hexec : p.executor = none := by
          rw [← hposition]
          exact (Run.isPending_iff.1 pending).1
        simp [Position.IsPlaced, hexec] at hplaced
  · exact .inr ⟨call, by rw [hpursues.issued]; exact List.mem_append_left _ hcall, hstops⟩

/-- **A failed start takes a run off its executor** and issues no call for that. -/
theorem Abandons.takeIn (h : a.Abandons id p) (hsound : s.registry.Sound)
    (hp : s.registry.position? id = some p) (hran : p.ranAt.isSome = true) :
    (a.takeIn s).registry.position? id = some p.vacate ∧ (a.takeIn s).issued = s.issued := by
  obtain ⟨c, cause, hc, hkind, rfl, hattempt, hresult⟩ := h
  obtain ⟨run, hrun, hposition⟩ := Registry.get?_of_position? hp
  have hst := (hsound.placed_of_ran hp hran).2
  have hstarted : run.startedAt.isSome = true := by
    rw [← hposition] at hran
    exact (hsound.shaped hrun).started_of_ran hran
  rw [← hposition] at hattempt hst
  have heffect : s.effect? c = some (.release c.job) := effect?_eq_some_iff.2
    ⟨run, hrun, hattempt.symm, .release cause hkind hresult hst hstarted⟩
  rw [Advance.takeIn_completion hc]
  rcases complete_eq s c a.heard with ⟨hnone, -⟩ | ⟨d, hd, hdoes⟩
  · rw [heffect] at hnone
    cases hnone
  · obtain rfl : d = .release c.job := Option.some.inj (hd.symm.trans heffect)
    refine ⟨?_, (complete_same s c a.heard).2⟩
    generalize s.complete c a.heard = s' at hdoes ⊢
    cases hdoes with
    | @release _ run' _ hrun' =>
      obtain rfl : run = run' := Option.some.inj (hrun.symm.trans hrun')
      rw [report_registry, put_registry]
      refine (Registry.position?_modifyRun hrun).trans ((if_pos rfl).trans ?_)
      rw [← hposition]
      rfl

/-- Nor does it issue one later, and the run is not what it was. -/
theorem Abandons.apply (h : a.Abandons id p) (hsound : s.registry.Sound)
    (hempty : s.issued = []) (hp : s.registry.position? id = some p)
    (hran : p.ranAt.isSome = true) :
    (a.apply s).registry.position? id ≠ some p ∧
      ∀ call ∈ (a.apply s).issued, ¬ call.Stops id p := by
  obtain ⟨hvacated, hissued⟩ := h.takeIn hsound hp hran
  obtain ⟨run, hrun, hposition⟩ := Registry.get?_of_position? hvacated
  obtain ⟨calls, hpursues⟩ := a.pursues hsound
  have hunbound : run.executor = none := congrArg Position.executor hposition
  have hunran : run.ranAt = none := congrArg Position.ranAt hposition
  constructor
  · intro hkept
    obtain ⟨run', hrun', rfl⟩ := Registry.get?_of_position? hkept
    rcases hpursues.runs id with hsame | ⟨call, hcall, rfl, hleft⟩
    · rw [hsame, hrun, Option.some.injEq] at hrun'
      rw [← hrun'] at hran
      simp [Run.position, hunran] at hran
    · rw [hrun', Option.some.injEq] at hleft
      cases hpursues.acts call hcall with
      | stop _ _ _ _ left =>
        rw [hleft, left] at hran
        cases hran
      | start _ _ _ _ _ _ left =>
        rw [hleft, left] at hran
        cases hran
  · rintro call hcall hstops
    rw [hpursues.issued, hissued, hempty, List.nil_append] at hcall
    cases hpursues.acts call hcall with
    | stop run' found placed =>
      rw [hstops.job, hrun, Option.some.injEq] at found
      rw [← found] at placed
      exact Run.not_isPlaced_of_unbound hunbound placed
    | start _ _ _ _ _ kind => cases hstops.kind.symm.trans kind

end Advance

/-- **A run that is running is kept, stopped or disowned, unless a failed start is taken in for
it.**  In each advance it is exactly so; and an advance that does take in a failed start for it
takes it off its executor without a call.  Along a history in which that does not happen, and in
which no report of its executor leaves it out, it stays as it is until its stop call is issued. -/
theorem running_kept_iff {config : Config κ} {session : Session κ} (h : Reachable config session)
    (hp : session.scheduler.registry.position? id = some p) (hran : p.ranAt.isSome = true) :
    (∀ a next, session.Step a next →
      (next.scheduler.registry.position? id = some p ∨
          (∃ call ∈ (a.apply session.scheduler).issued, call.Stops id p) ∨ a.Disowns id p ↔
        ¬ a.Abandons id p)) ∧
    (∀ a : Advance κ, a.Abandons id p →
      (a.takeIn session.scheduler).registry.position? id = some p.vacate ∧
        (a.takeIn session.scheduler).issued = []) ∧
    ∀ later, session.LeadsBy (fun _ a => ¬ a.Abandons id p ∧ ¬ a.Disowns id p) later →
      later.scheduler.registry.position? id = some p ∨ ∃ call ∈ later.calls, call.Stops id p := by
  refine ⟨?_, fun a ha => ?_, fun later hlater => ?_⟩
  · rintro a _ ⟨-, -, rest, -, rfl⟩
    constructor
    · rintro hkept ha
      obtain ⟨hmoved, hnone⟩ := ha.apply h.sound h.issued_eq_nil hp hran
      rcases hkept with hkept | ⟨call, hcall, hstops⟩ | ⟨_, _, hreport, -⟩
      · exact hmoved hkept
      · exact hnone call hcall hstops
      · obtain ⟨c, -, hc, -⟩ := ha
        cases a with
        | turn e => cases e <;> simp [Advance.command?, Advance.completion?] at hreport hc
        | leave => cases hreport
        | drain => cases hreport
    · intro habandons
      by_cases hdisowns : a.Disowns id p
      · exact .inr (.inr hdisowns)
      · rcases Advance.apply_running h.sound hp hran habandons hdisowns with hkept | hstopped
        · exact .inl hkept
        · exact .inr (.inl hstopped)
  · obtain ⟨hvacated, hissued⟩ := ha.takeIn h.sound hp hran
    exact ⟨hvacated, hissued.trans h.issued_eq_nil⟩
  · refine hlater.invariant (I := fun later => later.scheduler.registry.position? id = some p ∨
      ∃ call ∈ later.calls, call.Stops id p) (.inl hp) ?_
    rintro s₁ a _ hlead hkept ⟨habandons, hdisowns⟩ ⟨-, -, rest, -, rfl⟩
    rw [Session.calls_after]
    rcases hkept with hkept | ⟨call, hcall, hstops⟩
    · have hsound := (hlead.reachable h).sound
      rcases Advance.apply_running hsound hkept hran habandons hdisowns with
        hkept | ⟨call, hcall, hstops⟩
      · exact .inl hkept
      · exact .inr ⟨call, List.mem_append_right _ hcall, hstops⟩
    · exact .inr ⟨call, List.mem_append_left _ hcall, hstops⟩

/-- Two jobs are confirmed to run on an executor before their start calls are back, and another
executor is free. -/
def confirmedEarly : Session ℚ :=
  (Session.play (fun _ _ => true) { scheduler := { config := ownerConfirms }, now := 0 }
    [(0, .request (.addExecutor { id := "A", capacity := 10 })),
      (0, .request (.addJob { id := "k", cost := 1 })),
      (0, .request (.jobIsRunning "k")),
      (0, .request (.addJob { id := "j", cost := 1 })),
      (0, .request (.jobIsRunning "j")),
      (0, .request (.addExecutor { id := "B", capacity := 10 }))]).get (by decide +kernel)

theorem confirmedEarly_reachable : Reachable ownerConfirms confirmedEarly :=
  Session.play_reachedBy (fun _ _ _ => trivial) (.start 0 (by decide +kernel))
    (Option.some_get _).symm

/-- Whatever turn the loop takes by itself, the second job stays where it is or is stopped. -/
theorem running_kept_iff_confirmedEarly :
    ∃ p, confirmedEarly.scheduler.registry.position? "j" = some p ∧ p.executor = some "A" ∧
      ∀ a next, confirmedEarly.Step a next → a.completion? = none → a.command? = none →
        next.scheduler.registry.position? "j" = some p ∨
          ∃ call ∈ (a.apply confirmedEarly.scheduler).issued, call.Stops "j" p := by
  have hfound : (confirmedEarly.scheduler.registry.position? "j").map
      (fun p => (p.executor, p.ranAt)) = some (some "A", some 0) := by decide +kernel
  obtain ⟨p, hp, hplace⟩ := Option.map_eq_some_iff.1 hfound
  obtain ⟨hexec, hran⟩ := Prod.mk.inj hplace
  refine ⟨p, hp, hexec, fun a next hstep hcompletion hcommand => ?_⟩
  have habandons : ¬ a.Abandons "j" p := by
    rintro ⟨c, -, hc, -⟩
    rw [hcompletion] at hc
    cases hc
  have hiff := (running_kept_iff confirmedEarly_reachable hp (by rw [hran]; rfl)).1 a next hstep
  rcases hiff.2 habandons with hkept | hstopped | ⟨_, _, hreport, -⟩
  · exact .inl hkept
  · exact .inr hstopped
  · rw [hcommand] at hreport
    cases hreport

/-- Its start call comes back as failed. -/
def abandonedLate : Session ℚ :=
  (confirmedEarly.play (fun _ a => a.completion?.isSome)
    [(0, .answer 1 (.error (.failed "late")))]).get (by decide +kernel)

/-- A job that is confirmed to run is started on another executor when its start call comes back,
and no stop call was ever issued. -/
theorem running_abandoned :
    Reachable ownerConfirms confirmedEarly ∧
      (confirmedEarly.scheduler.registry.position? "j").map (fun p => (p.executor, p.ranAt)) =
        some (some "A", some 0) ∧
      confirmedEarly.LeadsBy (fun _ a => a.completion?.isSome = true) abandonedLate ∧
      (abandonedLate.scheduler.registry.position? "j").map (fun p => (p.executor, p.ranAt)) =
        some (some "B", none) ∧
      ∀ call ∈ abandonedLate.calls, call.kind = .start :=
  ⟨confirmedEarly_reachable, by decide +kernel,
    Session.play_leadsBy (fun _ _ h => h) .refl (Option.some_get _).symm, by decide +kernel,
    by decide +kernel⟩

end Dispatch
