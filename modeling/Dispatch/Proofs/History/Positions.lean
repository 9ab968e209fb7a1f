import Dispatch.Proofs.History.Sound

/-!
# What deeds do to runs

Most of what is true of runs along a history depends on their positions only: on which executor a
run is, since when, by which attempt, and whether it is being stopped.  `Shift` gives for each deed
that changes a position the positions before and after, and `Shifts` says what a deed does to all
positions and to the calls issued: nothing, or it adds a job, drops one, or shifts one run and
issues the call that goes with it.

`Does.shifts` shows that there is nothing else, so that what follows about positions and calls is
proved by one case for each of the four, or for each shift, and not for each deed.
-/

namespace Dispatch

variable {κ : Type}

/-- Where a run is and how it came there: all of it but the definition of its job, the time of its
last stop and whether it is to be removed. -/
structure Position where
  ordinal : Nat
  attempt : Nat := 0
  executor : Option String := none
  revision : Option UInt64 := none
  startedAt : Option Instant := none
  ranAt : Option Instant := none
  stopping : Bool := false

namespace Position

/-- On no executor. -/
def IsPending (p : Position) : Prop := p.executor = none ∧ p.stopping = false

/-- On an executor, and not on the way off it. -/
def IsPlaced (p : Position) : Prop := p.executor.isSome = true ∧ p.stopping = false

/-- Started and not confirmed to run. -/
def IsStarting (p : Position) : Prop :=
  p.startedAt.isSome = true ∧ p.ranAt = none ∧ p.stopping = false

/-- Off the executor without a stop. -/
def vacate (p : Position) : Position :=
  { p with executor := none, revision := none, startedAt := none, ranAt := none }

/-- On the way off an executor. -/
def stop (p : Position) (executor : String) : Position :=
  { p with
    executor := some executor, revision := none, startedAt := none, ranAt := none,
    stopping := true, attempt := p.attempt + 1 }

end Position

/-- The position of a run. -/
def Run.position (run : Run κ) : Position where
  ordinal := run.ordinal
  attempt := run.attempt
  executor := run.executor
  revision := run.executorRevision
  startedAt := run.startedAt
  ranAt := run.ranAt
  stopping := run.stopping

namespace Registry

variable {r : Registry κ} {job id : String} {run run' : Run κ}

/-- The position of the run registered under an id. -/
def position? (r : Registry κ) (id : String) : Option Position :=
  (r.runs.get? id).map Run.position

theorem position?_of_get? (h : r.runs.get? id = some run) :
    r.position? id = some run.position := by
  simp [position?, h]

theorem get?_of_position? {p : Position} (h : r.position? id = some p) :
    ∃ run, r.runs.get? id = some run ∧ run.position = p := Option.map_eq_some_iff.1 h

theorem position?_eq_none_iff : r.position? id = none ↔ r.runs.get? id = none :=
  Option.map_eq_none_iff

theorem position?_modifyRun (hrun : r.runs.get? job = some run) :
    (r.modifyRun job fun _ => run').position? id =
      if id = job then some run'.position else r.position? id := by
  rw [position?, get?_modifyRun hrun]
  split <;> rfl

theorem position?_removeRun :
    (r.removeRun job).position? id = if id = job then none else r.position? id := by
  simp only [position?, removeRun, Table.get?_erase]
  split <;> rfl

/-- A run may be replaced by one in the same position. -/
theorem position?_modifyRun_of_eq (hrun : r.runs.get? job = some run)
    (h : run'.position = run.position) :
    (r.modifyRun job fun _ => run').position? id = r.position? id := by
  rw [position?_modifyRun hrun]
  split
  · rename_i hid
    rw [hid, position?_of_get? hrun, h]
  · rfl

end Registry

/-- How a deed changes the position of the run of a job. -/
inductive Shift (now : Instant) (job : String) (p : Position) : Position → Deed κ → Prop
  | start (executor : String) (revision : UInt64) (free : p.IsPending) :
      Shift now job p
        { p with
          executor := some executor, revision := some revision, startedAt := some now
          ranAt := none, attempt := p.attempt + 1 }
        (.start job executor)
  | confirm (waits : p.IsStarting) (placed : p.IsPlaced) :
      Shift now job p { p with ranAt := some now } (.confirm job)
  | stop (executor : String) (remove : Bool) (here : p.executor = some executor)
      (free : p.stopping = false) :
      Shift now job p (p.stop executor) (.stop job remove)
  | release (placed : p.IsPlaced) : Shift now job p p.vacate (.release job)
  | settle (stopping : p.stopping = true) :
      Shift now job p { p with executor := none, stopping := false } (.settle job)
  | forget (placed : p.IsPlaced) :
      Shift now job p { p.vacate with attempt := p.attempt + 1 } (.forget job)
  | adopt (executor : String) (revision : UInt64) (free : p.IsPending) :
      Shift now job p
        { p with
          executor := some executor, revision := some revision, startedAt := some now
          ranAt := some now, attempt := p.attempt + 1 }
        (.adopt job executor)
  | expel (executor : String) (free : p.IsPending) :
      Shift now job p (p.stop executor) (.expel job executor)

/-- The kind of call that goes with a deed. -/
def Deed.callKind? : Deed κ → Option CallKind
  | .start .. => some .start
  | .stop .. | .expel .. => some .stop
  | _ => none

/-- The job whose stop ends with a deed. -/
def Deed.ended? : Deed κ → Option String
  | .settle job | .finish job => some job
  | _ => none

/-- What a deed does to the positions of runs and to the calls issued. -/
inductive Shifts (now : Instant) (s s' : Scheduler κ) (d : Deed κ) : Prop
  | same (going : d.ended? = none)
      (positions : ∀ id, s'.registry.position? id = s.registry.position? id)
      (next : s'.registry.nextOrdinal = s.registry.nextOrdinal) (issued : s'.issued = s.issued)
  /-- A job is new. -/
  | fresh (job : String) (going : d.ended? = none)
      (positions : ∀ id, s'.registry.position? id =
        if id = job then some { ordinal := s.registry.nextOrdinal } else s.registry.position? id)
      (old : s.registry.position? job = none)
      (next : s'.registry.nextOrdinal = s.registry.nextOrdinal + 1)
      (issued : s'.issued = s.issued)
  /-- A job is gone, at the end of its stop if it was being stopped. -/
  | gone (job : String) (p : Position)
      (positions : ∀ id, s'.registry.position? id =
        if id = job then none else s.registry.position? id)
      (old : s.registry.position? job = some p)
      (off : p.IsPending ∧ d.ended? = none ∨ p.stopping = true ∧ d = .finish job)
      (next : s'.registry.nextOrdinal = s.registry.nextOrdinal) (issued : s'.issued = s.issued)
  /-- A run is shifted, and the call that goes with it is issued. -/
  | shifted (job : String) (p p' : Position) (call? : Option (Call κ))
      (positions : ∀ id, s'.registry.position? id =
        if id = job then some p' else s.registry.position? id)
      (old : s.registry.position? job = some p) (shift : Shift now job p p' d)
      (next : s'.registry.nextOrdinal = s.registry.nextOrdinal)
      (issued : s'.issued = s.issued ++ call?.toList) (kind : call?.map (·.kind) = d.callKind?)
      (made : ∀ call ∈ call?, call.run.position = p' ∧ call.run.job.id = job)

section Shift

variable {now : Instant} {job : String} {p p' : Position} {d : Deed κ}

/-- Only the end of a stop shifts a run that is being stopped, -/
theorem Shift.settles (h : Shift now job p p' d) (hstopping : p.stopping = true) :
    d = .settle job := by
  cases h with
  | settle => rfl
  | start _ _ free => cases free.2.symm.trans hstopping
  | confirm waits => cases waits.2.2.symm.trans hstopping
  | stop _ _ _ free => cases free.symm.trans hstopping
  | release placed => cases placed.2.symm.trans hstopping
  | forget placed => cases placed.2.symm.trans hstopping
  | adopt _ _ free => cases free.2.symm.trans hstopping
  | expel _ free => cases free.2.symm.trans hstopping

theorem Shift.free (h : Shift now job p p' d) (going : d.ended? = none) : p.stopping = false := by
  cases hp : p.stopping with
  | false => rfl
  | true =>
    rw [h.settles hp] at going
    cases going

/-- and a run is being stopped from the deed on that issues its stop call. -/
theorem Shift.stopping_iff (h : Shift now job p p' d) :
    p'.stopping = true ↔ d.callKind? = some .stop := by
  cases h with
  | stop => exact iff_of_true rfl rfl
  | expel => exact iff_of_true rfl rfl
  | start _ _ free => simp [Deed.callKind?, free.2]
  | confirm waits => simp [Deed.callKind?, waits.2.2]
  | release placed => simp [Deed.callKind?, Position.vacate, placed.2]
  | settle => simp [Deed.callKind?]
  | forget placed => simp [Deed.callKind?, Position.vacate, placed.2]
  | adopt _ _ free => simp [Deed.callKind?, free.2]

end Shift

variable [Quantity κ] {now : Instant} {s s' : Scheduler κ} {d : Deed κ}

open Scheduler Registry

omit [Quantity κ] in
/-- A run is shifted and no call goes with it. -/
theorem Shifts.silent {job : String} {run run' : Run κ}
    (hrun : s.registry.runs.get? job = some run)
    (hreg : s'.registry = s.registry.modifyRun job fun _ => run')
    (hissued : s'.issued = s.issued) (hkind : d.callKind? = none)
    (shift : Shift now job run.position run'.position d) : Shifts now s s' d := by
  refine .shifted job run.position run'.position none (fun id => ?_) (position?_of_get? hrun) shift
    ?_ (by simp [hissued]) (by simp [hkind]) (by simp)
  · rw [hreg]
    exact position?_modifyRun hrun
  · rw [hreg]
    rfl

omit [Quantity κ] in
/-- A run is shifted and a call is issued with the run as it is then. -/
theorem Shifts.called {job : String} {run run' : Run κ} {call : Call κ}
    (hrun : s.registry.runs.get? job = some run)
    (hreg : s'.registry = s.registry.modifyRun job fun _ => run')
    (hissued : s'.issued = s.issued ++ [call]) (hkind : d.callKind? = some call.kind)
    (hcall : call.run = run') (hkey : run'.job.id = job)
    (shift : Shift now job run.position run'.position d) : Shifts now s s' d := by
  refine .shifted job run.position run'.position (some call) (fun id => ?_) (position?_of_get? hrun)
    shift ?_ hissued (by simp [hkind]) ?_
  · rw [hreg]
    exact position?_modifyRun hrun
  · rw [hreg]
    rfl
  · rintro c ⟨⟩
    exact ⟨by rw [hcall], by rw [hcall]; exact hkey⟩

/-- **There are four things** that a deed can do to positions and calls. -/
theorem Does.shifts (hdoes : Does now s d s') (hsound : s.registry.Sound) :
    Shifts now s s' d := by
  cases hdoes with
  | aside hsame =>
    refine .same rfl (fun _ => by rw [hsame.registry]) (by rw [hsame.registry]) ?_
    rw [issued, issued, hsame.outbox]
  | callBack => exact .same rfl (fun _ => rfl) rfl rfl
  | limit => exact .same rfl (fun _ => rfl) rfl rfl
  | say ho => exact .same rfl (fun _ => rfl) rfl (by simp [ho])
  | @addJob job _ hr =>
    obtain ⟨-, hnew, rfl⟩ := of_addJob hr
    have hnorun := hsound.get?_runs_eq_none hnew
    refine .fresh job.id rfl (fun id => ?_) (position?_eq_none_iff.2 hnorun) rfl rfl
    simp only [nameJob_registry, enter_registry, position?, Table.get?_addNew]
    by_cases hid : id = job.id
    · simp [hid, hnorun, Run.position]
    · simp [hid]
  | @changeJob job _ hr =>
    obtain ⟨old, -, -, rfl⟩ := of_changeJob hr
    refine .same rfl (fun id => ?_) rfl rfl
    simp only [nameJob_registry, position?, Table.get?_modify]
    by_cases hid : id = job.id
    · cases hrun : s.registry.runs.get? id with
      | none => simp [hid]
      | some run => cases hp : run.isPending <;> simp [hid, hp, Run.position]
    · simp [hid]
  | addExecutor hr =>
    obtain ⟨-, -, rfl⟩ := of_addExecutor hr
    exact .same rfl (fun _ => rfl) rfl rfl
  | removeExecutor hr =>
    obtain rfl := of_removeExecutor hr
    exact .same rfl (fun _ => rfl) rfl rfl
  | changeExecutor hr =>
    obtain ⟨-, -, -, -, rfl⟩ := of_changeExecutor hr
    exact .same rfl (fun _ => rfl) rfl rfl
  | keepAlive hr =>
    obtain rfl := of_keepAlive hr
    exact .same rfl (fun _ => rfl) rfl rfl
  | @start job executor e definition run he hdef hrun hplan =>
    have hfree := Run.isPending_iff.1 (plan_start_pending hsound hrun hplan).1
    obtain ⟨call, hissued, hkind, hcall⟩ := issue_issued
      (((s.put job (run.start definition e now) .starting now).nameExecutor job e.name).report
        .jobStarted (run.start definition e now)) .start (run.start definition e now) now
    rw [report_issued, nameExecutor_issued, put_issued] at hissued
    refine .called hrun rfl hissued (by rw [hkind]; rfl) hcall (hsound.job_key hdef) ?_
    rw [← (mem_of_executor? he).2]
    exact .start e.id e.revision hfree
  | confirm hrun hst hs =>
    obtain ⟨hstarted, hran⟩ := Run.isStarting_iff.1 hs
    have hbound := ((hsound.shaped hrun).of_started hstarted).1
    exact .silent hrun rfl (by simp) rfl (.confirm ⟨hstarted, hran, hst⟩ ⟨hbound, hst⟩)
  | mark hrun =>
    refine .same rfl (fun id => ?_) rfl rfl
    rw [modifyRun_registry]
    exact position?_modifyRun_of_eq hrun rfl
  | discard hrun hst hexec =>
    exact .gone _ _ (fun id => position?_removeRun) (position?_of_get? hrun)
      (.inl ⟨⟨hexec, hst⟩, rfl⟩) rfl rfl
  | @stop job executor remove run hrun hst hexec =>
    obtain ⟨call, hissued, hkind, hcall⟩ := putStop_issued s (run.stop remove now) job now
    have hkey : run.job.id = job := hsound.run_key hrun
    refine .called hrun rfl hissued (by rw [hkind]; rfl) hcall hkey ?_
    have hposition : (run.stop remove now).position = run.position.stop executor := by
      simp [Run.position, Run.stop, Position.stop, hexec]
    rw [hposition]
    exact .stop executor remove hexec hst
  | release hrun hst hs =>
    have hbound := ((hsound.shaped hrun).of_started hs).1
    exact .silent hrun rfl (by simp) rfl (.release ⟨hbound, hst⟩)
  | @settle job run result hrun hst =>
    obtain ⟨definition, hdef⟩ := hsound.job_of_run hrun
    generalize hleft : Scheduler.report _ _ _ _ = s'
    have hreg : s'.registry = s.registry.modifyRun job fun _ => run.settle definition := by
      simp only [← hleft, report_registry, put_registry, noteStop_registry, hdef,
        Option.getD_some]
    exact .silent hrun hreg (by simp [← hleft]) rfl (.settle hst)
  | finish hrun hst =>
    refine .gone _ _ (fun id => ?_) (position?_of_get? hrun) (.inr ⟨hst, rfl⟩) ?_ (by simp)
    · rw [drop_registry, noteStop_registry]
      exact position?_removeRun
    · simp [removeRun]
  | forget hrun hst hexec =>
    exact .silent hrun rfl (by simp) rfl (.forget ⟨by simp [Run.position, hexec], hst⟩)
  | adopt he hrun hst hexec =>
    exact .silent hrun rfl (by simp) rfl (.adopt _ _ ⟨hexec, hst⟩)
  | @expel job executor e run _ hrun hst hexec =>
    obtain ⟨call, hissued, hkind, hcall⟩ :=
      putStop_issued s ((run.bind executor e.revision).stop false now) job now
    have hkey : run.job.id = job := hsound.run_key hrun
    exact .called hrun rfl hissued (by rw [hkind]; rfl) hcall hkey
      (.expel executor ⟨hexec, hst⟩)

end Dispatch
