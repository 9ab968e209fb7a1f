import Dispatch.Proofs.History.Binding
import Dispatch.Proofs.History.Idle
import Dispatch.Proofs.History.Pending
import Dispatch.Proofs.History.Throttle

/-!
# The limits of an idle loop

When the loop waits with nothing to do, the verdict on its registry is favourable but for the load
of the executors, in every history (`ReachedBy.verify_iff`).  The load of an executor is kept within
its capacity by two checks, one before a run is started and one before it is adopted, and by a count
of the changes of the executor: a run that was placed before such a change has to stop.  There are
two gaps in this:

* the count begins anew when an executor is removed and added again, so runs that are still bound to
  it pass for placed under the new definition (`Advance.Revives`);
* a start commits the registered cost of its job, which may exceed the cost that was checked
  (`Advance.Oversteps`); this takes a pending run that is not current.

The main statements:

* `Does.fits` : every deed but those two keeps `Registry.Fits`;
* `verify_idle_iff` : **an idle loop is within all limits exactly as long as no advance opens one of
  the two gaps**;
* `verify_idle_fails` : a history in which one does.
-/

namespace Dispatch

open Scheduler

/-! ### Loads -/

/-- The deed lets an executor hold more than its capacity: it is added, or redefined, while the runs
still bound to it under that revision take more, or a run is started there at a cost for which it
has no room. -/
def Deed.Overcommits (now : Instant) (s : Scheduler ℚ) : Deed ℚ → Prop
  | .addExecutor e => (∃ r, s.registry.addExecutor e now = .ok r) ∧
      e.capacity + Quantity.tolerance < s.registry.heldLoad e
  | .changeExecutor e => ∃ old, Quantity.isValid e.capacity = true ∧
      s.registry.executor? e.id = some old ∧
      e.capacity + Quantity.tolerance < s.registry.heldLoad (Registry.redefine old e)
  | .start job executor => (plan s.registry s.config now).action = some (.start job executor) ∧
      ∃ definition e, s.registry.jobs.get? job = some definition ∧
        s.registry.executor? executor = some e ∧
        e.capacity + Quantity.tolerance < s.registry.heldLoad e + definition.cost
  | _ => False

section Loads

variable {now : Instant} {s s' : Scheduler ℚ} {d : Deed ℚ}

/-- **Every deed that does not overcommit an executor keeps all of them within their capacity.** -/
theorem Does.fits (hdoes : Does now s d s') (hsound : s.registry.Sound) (h : s.registry.Fits)
    (hover : ¬ d.Overcommits now s) : s'.registry.Fits := by
  by_cases hd : d.Commits
  -- a run put on an executor has been checked to fit
  · cases hdoes with
    | @start job executor e definition run he hdef hrun hplan =>
      have hpending := (plan_start_pending hsound hrun hplan).1
      refine h.commit hsound hrun ((hsound.shaped hrun).unstarted_of_pending hpending) he ?_ ?_
      · simp [Run.start, (Registry.mem_of_executor? he).2]
      · exact not_lt.1 fun hlt => hover ⟨hplan, definition, e, hdef, he, hlt⟩
    | @adopt job executor e run he hrun hst hexec hadmits =>
      have hpending := Run.isPending_iff.2 ⟨hexec, hst⟩
      refine h.commit hsound hrun ((hsound.shaped hrun).unstarted_of_pending hpending) he rfl ?_
      -- the cost adopted is the cost that was checked
      obtain ⟨e', he', rfl, hroom⟩ := admits_room hsound.executors hadmits
      rw [hsound.executor?_eq he'] at he
      obtain rfl := Option.some.inj he
      exact (add_le_add_left (Registry.heldLoad_le_load hsound) _).trans hroom
    | _ => exact hd.elim
  -- no other deed adds to a load, so what is left to see is where the executor comes from
  intro e' he'
  have hless : s'.registry.heldLoad e' ≤ s.registry.heldLoad e' := by
    rw [Registry.heldLoad_eq, Registry.heldLoad_eq]
    exact hdoes.tally_le hsound (Registry.share_burden e') hd
  refine hless.trans ?_
  rcases hdoes.executor_cases hsound he' with ⟨e, he, halike⟩ | ⟨e, r, rfl, hadd, halike⟩ |
    ⟨e, old, rfl, hvalid, hold, rfl⟩
  · rw [← Registry.heldLoad_congr halike.id halike.revision, ← halike.capacity]
    exact h e he
  · rw [← Registry.heldLoad_congr halike.id halike.revision, ← halike.capacity]
    exact not_lt.1 fun hlt => hover ⟨⟨r, hadd⟩, hlt⟩
  · exact not_lt.1 fun hlt => hover ⟨old, hvalid, hold, hlt⟩

theorem Course.fits (h : Course (fun now s d => ¬ d.Overcommits now s) s s')
    (hsound : s.registry.Sound) (hs : s.registry.Fits) : s'.registry.Fits :=
  h.invariant_of_sound (I := fun s => s.registry.Fits) hsound hs
    fun _ _ _ _ hsound hfits hover hdoes => hdoes.fits hsound hfits hover

end Loads

/-! ### Histories -/

section Histories

variable {s : Scheduler ℚ} {a : Advance ℚ}

/-- An executor is added or redefined with less capacity than the runs still bound to it under that
revision take. -/
inductive Advance.Revives (s : Scheduler ℚ) : Advance ℚ → Prop
  | added {ticket : Ticket} {e : Executor ℚ} {heard looked shown : Instant} :
      (Deed.addExecutor e).Overcommits heard s →
      Revives s (.turn (.request ticket (.addExecutor e)) heard looked shown)
  | changed {ticket : Ticket} {e : Executor ℚ} {heard looked shown : Instant} :
      (Deed.changeExecutor e).Overcommits heard s →
      Revives s (.turn (.request ticket (.changeExecutor e)) heard looked shown)

/-- A run is started at a cost for which its executor has no room. -/
inductive Advance.Oversteps (s : Scheduler ℚ) : Advance ℚ → Prop
  | started {e : Event ℚ} {heard looked shown : Instant} {job executor : String} :
      (Deed.start job executor).Overcommits looked (s.accept e heard).1 →
      Oversteps s (.turn e heard looked shown)

/-- The advance lets an executor hold more than its capacity. -/
def Advance.Overcommits (s : Scheduler ℚ) (a : Advance ℚ) : Prop := a.Revives s ∨ a.Oversteps s

theorem Advance.grants_fits (h : ¬ a.Overcommits s) :
    a.Grants (fun now s d => ¬ d.Overcommits now s) s where
  routine _ d hd := by
    cases d <;> first | exact hd.elim | exact id
  later _ d hd := by
    cases d <;> first | exact hd.elim | exact id
  callBack _ _ := id
  effect c d hc hd := by
    obtain ⟨run, -, -, hreturns⟩ := Scheduler.effect?_eq_some_iff.1 hd
    cases hreturns <;> exact id
  add ticket e heard looked shown ha hover := by
    subst ha
    exact h (.inl (.added hover))
  change ticket e heard looked shown ha hover := by
    subst ha
    exact h (.inl (.changed hover))
  forget _ _ _ _ _ _ _ _ _ _ _ _ _ _ _ _ _ _ := id
  adopt _ _ _ _ _ _ _ _ _ := id
  redefine _ _ _ _ _ _ := id
  start e heard looked shown ha s' job executor hreg hconf hover := by
    subst ha
    simp only [Deed.Overcommits, hreg, hconf] at hover
    exact h (.inr (.started hover))

/-- An executor that is revived holds too much as soon as the request is taken in. -/
theorem Advance.Revives.not_fits (h : a.Revives s) : ¬ (a.takeIn s).registry.Fits := by
  intro hfits
  cases h with
  | @added ticket e heard looked shown hover =>
    obtain ⟨⟨r, hr⟩, hlt⟩ := hover
    have hreg : ((Advance.turn (.request ticket (.addExecutor e)) heard looked shown).takeIn
        s).registry = r := by
      simp [Advance.takeIn, accept, handle, withRegistry, hr]
    rw [hreg] at hfits
    obtain ⟨-, -, rfl⟩ := Registry.of_addExecutor hr
    exact absurd (hfits _ (List.mem_append_right _ List.mem_cons_self)) (not_le.2 hlt)
  | @changed ticket e heard looked shown hover =>
    obtain ⟨old, hvalid, hold, hlt⟩ := hover
    have hreg : ((Advance.turn (.request ticket (.changeExecutor e)) heard looked shown).takeIn
        s).registry = s.registry.modifyExecutor e.id (Registry.redefine · e) := by
      simp [Advance.takeIn, accept, handle, withRegistry, Registry.changeExecutor,
        Registry.checkCapacity, hvalid, hold, Except.map]
    rw [hreg] at hfits
    obtain ⟨hmem, hid⟩ := Registry.mem_of_executor? hold
    have hmem' : Registry.redefine old e ∈
        (s.registry.modifyExecutor e.id (Registry.redefine · e)).executors :=
      List.mem_map.2 ⟨old, hmem, if_pos hid⟩
    exact absurd (hfits _ hmem') (not_le.2 hlt)

/-- An executor on which a run is started that does not fit holds too much once it is started. -/
theorem Advance.Oversteps.not_fits (h : a.Oversteps s) (hsound : (a.takeIn s).registry.Sound) :
    ¬ (a.apply s).registry.Fits := by
  intro hfits
  cases h with
  | @started e heard looked shown job executor hover =>
    obtain ⟨hplan, definition, target, hdef, he, hlt⟩ := hover
    replace hsound : (s.accept e heard).1.registry.Sound := hsound
    obtain ⟨run, hrun⟩ := hsound.run_of_job hdef
    have hpending := (plan_start_pending hsound hrun hplan).1
    have hreg : ((Advance.turn e heard looked shown).apply s).registry =
        (s.accept e heard).1.registry.modifyRun job
          fun _ => run.start definition target looked := turnAt_starts hplan he hdef hrun
    rw [hreg] at hfits
    have hheld := hfits target (Registry.mem_of_executor? he).1
    rw [Registry.heldLoad_eq] at hlt hheld
    rw [(Registry.share_burden target).commit_eq hrun
      ((hsound.shaped hrun).unstarted_of_pending hpending)] at hheld
    -- the run started takes its full cost of the executor
    have hshare : Registry.share target (run.start definition target looked) =
        definition.cost := by
      have hfree := (Run.isPending_iff.1 hpending).2
      simp [Registry.share, Run.start, Run.isBoundTo, hfree]
    rw [hshare] at hheld
    exact absurd hheld (not_le.2 hlt)

/-- No advance overcommits an executor unless it revives one or pending runs are not current. -/
theorem Advance.not_overcommits (hsound : (a.takeIn s).registry.Sound)
    (hcurrent : (a.takeIn s).registry.PendingCurrent) (hrevives : ¬ a.Revives s) :
    ¬ a.Overcommits s := by
  rintro (h | h)
  · exact hrevives h
  cases h with
  | @started e heard looked shown job executor hover =>
    obtain ⟨hplan, definition, target, hdef, he, hlt⟩ := hover
    obtain ⟨run, hrun⟩ := hsound.run_of_job hdef
    obtain ⟨hpending, -, hplace⟩ := plan_start_pending hsound hrun hplan
    obtain ⟨target', hmem, rfl, hroom, -⟩ := place_room hsound.executors hplace
    have he' : (s.accept e heard).1.registry.executor? target'.id = some target' :=
      hsound.executor?_eq hmem
    have hdef' : (s.accept e heard).1.registry.jobs.get? job = some run.job :=
      hcurrent job run hrun hpending
    obtain rfl : target' = target := by simpa [he] using he'.symm
    obtain rfl : definition = run.job := by simpa [hdef] using hdef'
    have hheld := Registry.heldLoad_le_load (e := target') hsound
    have hless : (s.accept e heard).1.registry.heldLoad target' + run.job.cost ≤
        target'.capacity + Quantity.tolerance := (add_le_add_left hheld _).trans hroom
    exact absurd hless (not_le.2 hlt)

theorem Advance.takeIn_fits (hsound : s.registry.Sound) (hfits : s.registry.Fits)
    (hover : ¬ a.Overcommits s) : (a.takeIn s).registry.Fits :=
  (Advance.takeIn_course hsound.run_key (Advance.grants_fits hover).toGrantsIntake).fits hsound
    hfits

theorem Advance.apply_fits (hsound : s.registry.Sound) (hfits : s.registry.Fits)
    (hover : ¬ a.Overcommits s) : (a.apply s).registry.Fits :=
  (Advance.course hsound.run_key (Advance.grants_fits hover)).fits hsound hfits

/-- An overcommitted executor shows, either before the plan is looked at or afterwards. -/
theorem Advance.not_overcommits_of_fits (hsound : s.registry.Sound)
    (htaken : (a.takeIn s).registry.Fits) (hdone : (a.apply s).registry.Fits) :
    ¬ a.Overcommits s := by
  rintro (hrevives | hoversteps)
  · exact hrevives.not_fits htaken
  · exact hoversteps.not_fits (Advance.takeIn_sound hsound) hdone

/-- An advance with nothing left to do leaves what the request did in place. -/
theorem Advance.not_overcommits_of_idle (hsound : s.registry.Sound)
    (hdue : (a.apply s).refreshDue = false) (hdone : (a.apply s).registry.Fits) :
    ¬ a.Overcommits s := by
  rintro (hrevives | hoversteps)
  · refine hrevives.not_fits ?_
    cases hrevives with
    | added => exact turnAt_idle hdue ▸ hdone
    | changed => exact turnAt_idle hdue ▸ hdone
  · exact hoversteps.not_fits (Advance.takeIn_sound hsound) hdone

variable {P : Scheduler ℚ → Advance ℚ → Prop} {config : Config ℚ} {session : Session ℚ}

/-- **An idle loop is within all limits but the load of its executors**, in every history. -/
theorem ReachedBy.verify_iff (h : ReachedBy P config session)
    (hserving : session.scheduler.stage = .serving)
    (hdue : session.scheduler.refreshDue = false) :
    session.scheduler.registry.verify session.scheduler.config = .ok () ↔
      session.scheduler.registry.Fits := by
  obtain ⟨looked, shown, -, -, hwaits⟩ := h.waits hserving hdue
  exact h.sound.verify_iff h.throttled.limited hwaits.idle

theorem ReachedBy.fits (h : ReachedBy (fun s a => ¬ a.Overcommits s) config session) :
    session.scheduler.registry.Fits := by
  refine h.invariant (I := fun session => session.scheduler.registry.Fits)
    (fun _ _ _ he => nomatch he) ?_
  rintro session a _ hreach hfits hover ⟨-, -, rest, -, rfl⟩
  exact Advance.apply_fits hreach.sound hfits hover

/-- A history in which no executor is revived and no outdated run is dropped overcommits none. -/
theorem ReachedBy.within
    (h : ReachedBy (fun s a => ¬ a.Revives s ∧ ¬ a.LosesUpdate s) config session) :
    ReachedBy (fun s a => ¬ a.Overcommits s) config session := by
  induction h with
  | start now hc => exact .start now hc
  | step hreach hP hstep ih =>
    have hcurrent := Advance.takeIn_pendingCurrent hreach.sound
      (hreach.pendingCurrent fun _ _ => And.right) hP.2
    exact .step ih
      (Advance.not_overcommits (Advance.takeIn_sound hreach.sound) hcurrent hP.1) hstep

/-- The checks of the registry that the advance answers while the loop serves all get this reply. -/
def Advance.AnswersChecks (s : Scheduler ℚ) (reply : Reply) : Advance ℚ → Prop
  | .turn e heard looked shown => (s.turnAt e heard looked shown).outbox =
      (s.pass e heard looked shown).outbox ++
        (s.pass e heard looked shown).checksDue.map fun ticket => .reply ticket reply
  | _ => True

theorem Advance.answersChecks (hsound : s.registry.Sound) (hstarts : s.Throttled)
    (hfits : (a.apply s).registry.Fits) : a.AnswersChecks s (.ok ()) := by
  cases a with
  | turn e heard looked shown =>
    obtain ⟨hreg, hconf, -, hsaid⟩ := answerChecks_eq (s.pass e heard looked shown)
    refine hsaid.trans (congrArg (_ ++ ·) ?_)
    cases hdue : (s.pass e heard looked shown).refreshDue with
    | true => simp [checksDue, hdue]
    | false =>
      have hsound' := Advance.apply_sound (a := .turn e heard looked shown) hsound
      have hstarts' :=
        (Advance.apply_throttled (a := .turn e heard looked shown) hsound hstarts).limited
      simp only [StartsLimited, Advance.apply, turnAt, hreg, hconf] at hfits hsound' hstarts'
      rw [(hsound'.verify_iff hstarts' (pass_waits hdue).idle).2 hfits]
  | leave => trivial
  | drain => trivial

/-- **An idle loop is within all limits exactly as long as no executor is overcommitted.**  In every
history the verdict depends on the load of the executors only.  As long as no advance overcommits
one, an idle loop has a favourable verdict and every check is so answered; the next advance leaves
the executors within their capacity, before and after the plan is looked at, exactly when it does
not overcommit one either.  No history in which no executor is revived and no outdated run is
dropped does so. -/
theorem verify_idle_iff (config : Config ℚ) :
    (∀ session, Reachable config session → session.scheduler.stage = .serving →
      session.scheduler.refreshDue = false →
      (session.scheduler.registry.verify session.scheduler.config = .ok () ↔
        session.scheduler.registry.Fits)) ∧
    (∀ session, ReachedBy (fun s a => ¬ a.Overcommits s) config session →
      (session.scheduler.stage = .serving → session.scheduler.refreshDue = false →
        session.scheduler.registry.verify session.scheduler.config = .ok ()) ∧
      ∀ a next, session.Step a next →
        ((a.takeIn session.scheduler).registry.Fits ∧ next.scheduler.registry.Fits ↔
          ¬ a.Overcommits session.scheduler) ∧
        (next.scheduler.stage = .serving → next.scheduler.refreshDue = false →
          (next.scheduler.registry.verify next.scheduler.config = .ok () ↔
            ¬ a.Overcommits session.scheduler)) ∧
        (¬ a.Overcommits session.scheduler → a.AnswersChecks session.scheduler (.ok ()))) ∧
    ∀ session, ReachedBy (fun s a => ¬ a.Revives s ∧ ¬ a.LosesUpdate s) config session →
      ReachedBy (fun s a => ¬ a.Overcommits s) config session := by
  refine ⟨?_, ?_, ?_⟩
  · intro session h
    exact h.verify_iff
  · intro session h
    have hafter {a : Advance ℚ} (hover : ¬ a.Overcommits session.scheduler) :
        (a.apply session.scheduler).registry.Fits := Advance.apply_fits h.sound h.fits hover
    constructor
    · intro hserving hdue
      exact (h.verify_iff hserving hdue).2 h.fits
    · intro a next hstep
      have hreach : Reachable config next := .step h.reachable trivial hstep
      obtain ⟨-, -, rest, -, rfl⟩ := hstep
      refine ⟨⟨?_, ?_⟩, ?_, ?_⟩
      · rintro ⟨htaken, hdone⟩
        exact Advance.not_overcommits_of_fits h.sound htaken hdone
      · intro hover
        exact ⟨Advance.takeIn_fits h.sound h.fits hover, hafter hover⟩
      · intro hserving hdue
        rw [hreach.verify_iff hserving hdue]
        exact ⟨Advance.not_overcommits_of_idle h.sound hdue, hafter⟩
      · intro hover
        exact Advance.answersChecks h.sound h.throttled (hafter hover)
  · intro session h
    exact h.within

end Histories

/-- An advance that cannot drop a run, redefines no executor, and adds none with less capacity than
is held under its id. -/
def Advance.isModest (s : Scheduler ℚ) (a : Advance ℚ) : Bool :=
  a.isHarmless &&
    match a with
    | .turn (.request _ (.addExecutor e)) .. =>
      decide (s.registry.heldLoad e ≤ e.capacity + Quantity.tolerance)
    | .turn (.request _ (.changeExecutor _)) .. => false
    | _ => true

theorem Advance.not_revives {s : Scheduler ℚ} {a : Advance ℚ} (h : a.isModest s = true) :
    ¬ a.Revives s := by
  rintro (⟨hover⟩ | ⟨hover⟩)
  · simp only [isModest, Bool.and_eq_true, decide_eq_true_eq] at h
    exact absurd h.2 (not_le.2 hover.2)
  · simp [isModest] at h

/-- Two jobs of cost 5 fill an executor of capacity 10, and a third one waits. -/
def filled : Session ℚ :=
  (Session.play Advance.isModest { scheduler := { config := startConfirms }, now := 0 }
    [(0, .request (.addExecutor { id := "a", capacity := 10 })),
      (0, .request (.addJob { id := "j1", cost := 5 })),
      (0, .answer 0 (.ok ())),
      (0, .request (.addJob { id := "j2", cost := 5 })),
      (0, .answer 0 (.ok ())),
      (0, .request (.addJob { id := "j3", cost := 1 }))]).get (by decide +kernel)

/-- The executor is full, the verdict is favourable, and so is the answer to a check. -/
theorem verify_idle_filled :
    (filled.scheduler.registry.executors.map filled.scheduler.registry.load) = [10] ∧
      filled.scheduler.registry.verify filled.scheduler.config = .ok () ∧
      (filled.scheduler.pass (.request 7 .checkInvariants) 1 1 1).checksDue = [7] ∧
      (Advance.turn (.request 7 .checkInvariants) 1 1 1).AnswersChecks filled.scheduler
        (.ok ()) := by
  have hreach : ReachedBy (fun s a => ¬ a.Revives s ∧ ¬ a.LosesUpdate s) startConfirms filled := by
    refine Session.play_reachedBy (fun s a h => ?_) (.start 0 (by decide +kernel))
      (Option.some_get _).symm
    have hharmless : a.isHarmless = true := by
      simp only [Advance.isModest, Bool.and_eq_true] at h
      exact h.1
    exact ⟨Advance.not_revives h, Advance.not_losesUpdate hharmless⟩
  obtain ⟨-, hwithin, hsimple⟩ := verify_idle_iff startConfirms
  obtain ⟨hverify, hnext⟩ := hwithin filled (hsimple filled hreach)
  have hstep : filled.Step (.turn (.request 7 .checkInvariants) 1 1 1)
      (filled.after (.turn (.request 7 .checkInvariants) 1 1 1) filled.underWay) :=
    ⟨by decide +kernel, by decide +kernel, _, rfl, rfl⟩
  have hidle : (plan filled.scheduler.registry filled.scheduler.config 1).action = none := by
    decide +kernel
  have hover : ¬ (Advance.turn (.request 7 .checkInvariants) 1 1 1).Overcommits
      filled.scheduler := by
    rintro (⟨⟨⟩⟩ | ⟨hplan, -⟩)
    exact absurd (hidle.symm.trans hplan) (by simp)
  exact ⟨by decide +kernel, hverify (by decide +kernel) (by decide +kernel), by decide +kernel,
    (hnext _ _ hstep).2.2 hover⟩

/-- An executor that holds two jobs of cost 5 is removed, and added again with capacity 1 while only
the first of them has been stopped. -/
def shrunk : Session ℚ :=
  (Session.play (fun _ _ => true) { scheduler := { config := startConfirms }, now := 0 }
    [(0, .request (.addExecutor { id := "A", capacity := 10 })),
      (0, .request (.addJob { id := "j1", cost := 5 })),
      (0, .answer 0 (.ok ())),
      (0, .request (.addJob { id := "j2", cost := 5 })),
      (0, .answer 0 (.ok ())),
      (0, .request (.removeExecutor "A")),
      (0, .request (.addExecutor { id := "A", capacity := 1 })),
      (0, .request .checkInvariants)]).get (by decide +kernel)

/-- Nothing is left to do, and the executor carries 5 over its capacity of 1. -/
theorem verify_idle_fails :
    Reachable startConfirms shrunk ∧ shrunk.scheduler.stage = .serving ∧
      shrunk.scheduler.refreshDue = false ∧
      shrunk.scheduler.registry.verify shrunk.scheduler.config ≠ .ok () ∧
      (shrunk.scheduler.registry.executors.map fun e =>
        (e.capacity, shrunk.scheduler.registry.load e)) = [(1, 5)] := by
  have hreach : Reachable startConfirms shrunk :=
    Session.play_reachedBy (fun _ _ _ => trivial) (.start 0 (by decide +kernel))
      (Option.some_get _).symm
  have hbroken : (shrunk.scheduler.registry.violation? shrunk.scheduler.config).isSome = true := by
    decide +kernel
  refine ⟨hreach, by decide +kernel, by decide +kernel, fun hverify => ?_, by decide +kernel⟩
  rw [Registry.verify_eq_ok_iff.1 hverify] at hbroken
  exact absurd hbroken (by simp)

end Dispatch
