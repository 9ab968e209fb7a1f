import Dispatch.Proofs.History.Marks
import Dispatch.Proofs.History.Replay
import Dispatch.Proofs.Numbers

/-!
# Well-formed registries

What is true of the tables at every moment, whether or not the loop has anything left to do.
`Registry.Sound` has the part of it that does not speak of time; what is added here is that no run
records an instant that is yet to come.

* `Run.HasShape` : what each of the four states of a run means for its fields;
* `Does.timed` : a deed records no later instant than that at which it is done;
* `Remarks.continues` : runs are numbered in the order in which their jobs are added;
* `registry_wellFormed` : **the registry is well formed in every history**, after each advance and
  also when the advance has taken in what it starts with and the plan is not yet looked at.

The deeds by which an advance takes something in are all done at one instant, and those that follow
at one later instant, so the instants recorded are compared with one instant at a time.
-/

namespace Dispatch

variable {κ : Type}

namespace Run

/-- The fields of a run in each of its states. -/
def HasShape (run : Run κ) : RunState → Prop
  | .pending => run.executor = none ∧ run.executorRevision = none ∧ run.startedAt = none ∧
      run.ranAt = none ∧ run.stopping = false ∧ run.removing = false
  | .starting => run.executor.isSome = true ∧ run.executorRevision.isSome = true ∧
      run.startedAt.isSome = true ∧ run.ranAt = none ∧ run.stoppedAt = none ∧
      run.stopping = false ∧ run.removing = false
  | .running => run.executor.isSome = true ∧ run.executorRevision.isSome = true ∧
      (∃ started ran, run.startedAt = some started ∧ run.ranAt = some ran ∧ started ≤ ran) ∧
      run.stoppedAt = none ∧ run.stopping = false ∧ run.removing = false
  | .stopping => run.executor.isSome = true ∧ run.stoppedAt.isSome = true ∧
      run.executorRevision = none ∧ run.startedAt = none ∧ run.ranAt = none ∧
      run.stopping = true

/-- The instants that a run records are not after `now`, and it did not run before it was
started. -/
structure Timed (run : Run κ) (now : Instant) : Prop where
  started : ∀ t, run.startedAt = some t → t ≤ now
  ran : ∀ t, run.ranAt = some t → t ≤ now
  stopped : ∀ t, run.stoppedAt = some t → t ≤ now
  order : ∀ t u, run.startedAt = some t → run.ranAt = some u → t ≤ u

/-- A run has the shape of the state that it reports, and no other. -/
theorem Shaped.hasShape_iff {run : Run κ} {now : Instant} (h : run.Shaped) (ht : run.Timed now)
    (state : RunState) : run.HasShape state ↔ state = run.state := by
  cases h with
  | pending he hv hs hr hst hrm =>
    have hstate : run.state = .pending := by simp [Run.state, hst, hr, hs]
    rw [hstate]
    cases state <;> simp [HasShape, he, hv, hs, hr, hst, hrm]
  | starting he hv hs hr hsp hst hrm =>
    have hstate : run.state = .starting := by simp [Run.state, hst, hr, hs]
    rw [hstate]
    cases state <;> simp [HasShape, he, hv, hs, hr, hsp, hst, hrm, Option.isSome_iff_ne_none.1 he]
  | running he hv hs hr hsp hst hrm =>
    have hstate : run.state = .running := by simp [Run.state, hst, hr]
    obtain ⟨t, hs⟩ := Option.isSome_iff_exists.1 hs
    obtain ⟨u, hr⟩ := Option.isSome_iff_exists.1 hr
    have hle := ht.order t u hs hr
    rw [hstate]
    cases state <;> simp [HasShape, he, hv, hs, hr, hsp, hst, hrm, hle]
  | stopping he hv hs hr hsp hst =>
    have hstate : run.state = .stopping := by simp [Run.state, hst]
    rw [hstate]
    cases state <;> simp [HasShape, he, hv, hs, hr, hsp, hst]

namespace Timed

variable {run : Run κ} {now later : Instant}

theorem mono (h : run.Timed now) (hle : now ≤ later) : run.Timed later where
  started t ht := Int.le_trans (h.started t ht) hle
  ran t ht := Int.le_trans (h.ran t ht) hle
  stopped t ht := Int.le_trans (h.stopped t ht) hle
  order := h.order

/-- Only the instants that a run records count. -/
theorem congr (h : run.Timed now) {run' : Run κ} (hs : run'.startedAt = run.startedAt)
    (hr : run'.ranAt = run.ranAt) (hst : run'.stoppedAt = run.stoppedAt) : run'.Timed now where
  started t ht := h.started t (hs ▸ ht)
  ran t ht := h.ran t (hr ▸ ht)
  stopped t ht := h.stopped t (hst ▸ ht)
  order t u ht hu := h.order t u (hs ▸ ht) (hr ▸ hu)

/-- A run that has not begun to run records at most when it was started and stopped. -/
theorem of_not_ran (hr : run.ranAt = none) (hs : ∀ t, run.startedAt = some t → t ≤ now)
    (hst : ∀ t, run.stoppedAt = some t → t ≤ now) : run.Timed now where
  started := hs
  ran t ht := by simp [hr] at ht
  stopped := hst
  order t u _ hu := by simp [hr] at hu

theorem start (job : Job κ) (e : Executor κ) : (run.start job e now).Timed now :=
  of_not_ran rfl (by simp [Run.start]) (by simp [Run.start])

theorem confirm (h : run.Timed now) : (run.confirm now).Timed now where
  started := h.started
  ran t ht := by simp_all [Run.confirm]
  stopped := h.stopped
  order t u ht hu := by
    obtain rfl : now = u := by simpa [Run.confirm] using hu
    exact h.started t ht

theorem release : (run.release now).Timed now :=
  of_not_ran rfl (by simp [Run.release]) (by simp [Run.release])

theorem stop (remove : Bool) : (run.stop remove now).Timed now :=
  of_not_ran rfl (by simp [Run.stop]) (by simp [Run.stop])

theorem adopt (executor : String) (revision : UInt64) :
    ((run.bind executor revision).adopt now).Timed now where
  started t ht := by simp_all [Run.adopt]
  ran t ht := by simp_all [Run.adopt]
  stopped t ht := by simp [Run.adopt, Run.bind] at ht
  order t u ht hu := by simp_all [Run.adopt]

end Timed

end Run

namespace Registry

variable {r r' : Registry κ} {id : String} {run : Run κ} {now : Instant}

/-- No run records an instant after `now`. -/
def Timed (r : Registry κ) (now : Instant) : Prop :=
  ∀ id run, r.runs.get? id = some run → run.Timed now

namespace Timed

theorem mono {later : Instant} (h : r.Timed now) (hle : now ≤ later) : r.Timed later :=
  fun id run hrun => (h id run hrun).mono hle

theorem modifyRun (h : r.Timed now) (hrun : r.runs.get? id = some run) {f : Run κ → Run κ}
    (hnew : (f run).Timed now) : (r.modifyRun id f).Timed now := by
  intro id' run' hrun'
  rw [get?_modifyRun hrun] at hrun'
  split at hrun'
  · obtain rfl := Option.some.inj hrun'
    exact hnew
  · exact h id' run' hrun'

theorem removeRun (h : r.Timed now) : (r.removeRun id).Timed now := by
  intro id' run' hrun'
  simp only [Registry.removeRun, Table.get?_erase] at hrun'
  split at hrun'
  · cases hrun'
  · exact h id' run' hrun'

variable [Quantity κ]

theorem addJob (h : r.Timed now) {job : Job κ} (hadd : r.addJob job = .ok r') :
    r'.Timed now := by
  obtain ⟨-, -, rfl⟩ := of_addJob hadd
  intro id' run' hrun'
  simp only [Table.get?_addNew] at hrun'
  cases hold : r.runs.get? id' with
  | some run =>
    obtain rfl : run = run' := by simpa [hold] using hrun'
    exact h id' run hold
  | none =>
    -- a run that has just been added records nothing
    simp only [hold, Option.none_or] at hrun'
    split at hrun'
    · obtain rfl := Option.some.inj hrun'
      exact .of_not_ran rfl (by simp) (by simp)
    · cases hrun'

theorem changeJob (h : r.Timed now) {job : Job κ} (hchange : r.changeJob job = .ok r') :
    r'.Timed now := by
  obtain ⟨old, -, -, rfl⟩ := of_changeJob hchange
  intro id' run' hrun'
  simp only [Table.get?_modify] at hrun'
  split at hrun'
  · obtain ⟨run, hrun, rfl⟩ := Option.map_eq_some_iff.1 hrun'
    split
    · exact (h id' run hrun).congr rfl rfl rfl
    · exact h id' run hrun
  · exact h id' run' hrun'

end Timed

/-- The tables at the instant `now`. -/
structure WellFormed (r : Registry κ) (now : Instant) : Prop where
  ids : r.jobs.ids = r.runs.ids
  job_key : ∀ id job, r.jobs.get? id = some job → job.id = id
  run_key : ∀ id run, r.runs.get? id = some run → run.job.id = id
  executors : (r.executors.map (·.id)).Nodup
  /-- The list of all runs has each run that is registered. -/
  listed : ∀ run, run ∈ r.allRuns ↔ r.runs.get? run.job.id = some run
  /-- It has each of them once, in the order of addition. -/
  order : r.allRuns.Pairwise fun run run' => run.ordinal < run'.ordinal
  ordinal_lt : ∀ run ∈ r.allRuns, run.ordinal < r.nextOrdinal
  shape : ∀ run ∈ r.allRuns, ∀ state, run.HasShape state ↔ state = run.state
  timed : ∀ run ∈ r.allRuns, run.Timed now

theorem Sound.wellFormed [Quantity κ] (h : r.Sound) (ht : r.Timed now) : r.WellFormed now where
  ids := h.ids
  job_key _ _ := h.job_key
  run_key _ _ := h.run_key
  executors := h.executors
  listed _ := ⟨h.get?_of_mem, Table.mem_values⟩
  order := List.pairwise_map.1 h.ordinals
  ordinal_lt _ hrun := h.ordinal_lt (h.get?_of_mem hrun)
  shape run hrun := (h.shaped (h.get?_of_mem hrun)).hasShape_iff (ht _ run (h.get?_of_mem hrun))
  timed run hrun := ht _ run (h.get?_of_mem hrun)

/-- Numbers are given to runs once and in ascending order: a run found later has the number that it
had, and as many attempts or more, or else a number that was still to be given. -/
structure Continues (r r' : Registry κ) : Prop where
  next : r.nextOrdinal ≤ r'.nextOrdinal
  runs : ∀ id m', r'.mark? id = some m' →
    (∃ m, r.mark? id = some m ∧ m.ordinal = m'.ordinal ∧ m.attempt ≤ m'.attempt) ∨
      r.nextOrdinal ≤ m'.ordinal

end Registry

variable [Quantity κ] {now : Instant} {s s' s'' : Scheduler κ} {d : Deed κ}

open Scheduler Registry

/-- **A deed records no later instant than its own.** -/
theorem Does.timed (hdoes : Does now s d s') (h : s.registry.Timed now) :
    s'.registry.Timed now := by
  cases hdoes with
  | aside hsame => rw [hsame.registry]; exact h
  | callBack => exact h
  | limit => exact h
  | say => exact h
  | addJob hr => exact h.addJob hr
  | changeJob hr => exact h.changeJob hr
  | addExecutor hr =>
    obtain ⟨-, -, rfl⟩ := of_addExecutor hr
    exact h
  | removeExecutor hr =>
    obtain rfl := of_removeExecutor hr
    exact h
  | changeExecutor hr =>
    obtain ⟨-, -, -, -, rfl⟩ := of_changeExecutor hr
    exact h
  | keepAlive hr =>
    obtain rfl := of_keepAlive hr
    exact h
  | start _ _ hrun => exact h.modifyRun hrun (.start _ _)
  | confirm hrun => exact h.modifyRun hrun (h _ _ hrun).confirm
  | mark hrun => exact h.modifyRun hrun ((h _ _ hrun).congr rfl rfl rfl)
  | discard => exact h.removeRun
  | stop hrun => exact h.modifyRun hrun (.stop _)
  | release hrun => exact h.modifyRun hrun .release
  | settle hrun =>
    simp only [report_registry, put_registry, noteStop_registry]
    exact h.modifyRun hrun ((h _ _ hrun).congr rfl rfl rfl)
  | finish =>
    simp only [drop_registry, noteStop_registry]
    exact h.removeRun
  | @forget _ _ run hrun =>
    have hreleased : (run.release now).Timed now := .release
    exact h.modifyRun hrun (hreleased.congr rfl rfl rfl)
  | adopt _ hrun => exact h.modifyRun hrun (.adopt _ _)
  | expel _ hrun => exact h.modifyRun hrun (.stop _)

omit [Quantity κ] in
/-- **A deed gives no number twice**, and numbers in ascending order. -/
theorem Remarks.continues {r : Registry κ} (hdeed : Remarks s s' d)
    (h : r.Continues s.registry) : r.Continues s'.registry := by
  have hraised : ∀ id {m₁ m₂ : Mark}, s.registry.mark? id = some m₁ → m₂.ordinal = m₁.ordinal →
      m₁.attempt ≤ m₂.attempt →
      (∃ m, r.mark? id = some m ∧ m.ordinal = m₂.ordinal ∧ m.attempt ≤ m₂.attempt) ∨
        r.nextOrdinal ≤ m₂.ordinal := by
    intro id m₁ m₂ hm₁ hordinal hattempt
    rw [hordinal]
    rcases h.runs id m₁ hm₁ with ⟨m, hm, hsame, hle⟩ | hlater
    · exact .inl ⟨m, hm, hsame, Nat.le_trans hle hattempt⟩
    · exact .inr hlater
  cases hdeed with
  | same marks next =>
    refine ⟨next ▸ h.next, fun id m' hm' => ?_⟩
    rw [marks] at hm'
    exact h.runs id m' hm'
  | fresh job marks old next =>
    refine ⟨next ▸ Nat.le_succ_of_le h.next, fun id m' hm' => ?_⟩
    rw [marks] at hm'
    split at hm'
    · -- the number of a new run was still to be given
      obtain rfl := Option.some.inj hm'
      exact .inr h.next
    · exact h.runs id m' hm'
  | gone job m marks old stopped next =>
    refine ⟨next ▸ h.next, fun id m' hm' => ?_⟩
    rw [marks] at hm'
    split at hm'
    · cases hm'
    · exact h.runs id m' hm'
  | moved job m m₁ marks old stopped ordinal attempt next =>
    refine ⟨next ▸ h.next, fun id m' hm' => ?_⟩
    rw [marks] at hm'
    split at hm'
    · rename_i hid
      obtain rfl := Option.some.inj hm'
      exact hraised id (hid ▸ old) ordinal attempt
    · exact h.runs id m' hm'
  | called job m m₁ call marks old free ordinal attempt mark target stopping next =>
    refine ⟨next ▸ h.next, fun id m' hm' => ?_⟩
    rw [marks] at hm'
    split at hm'
    · rename_i hid
      obtain rfl := Option.some.inj hm'
      exact hraised id (hid ▸ old) ordinal (by omega)
    · exact h.runs id m' hm'

/-- A chain of deeds that are all done at one instant records no later one. -/
theorem Course.timed (h : Course (fun t _ _ => t = now) s s') (hs : s.registry.Timed now) :
    s'.registry.Timed now :=
  h.invariant (I := fun s => s.registry.Timed now) hs fun _ _ _ _ htimed hnow hdoes =>
    (hnow ▸ hdoes).timed htimed

namespace Advance

variable {a : Advance κ}

omit [Quantity κ] in
/-- What an advance takes in, it takes in at one instant. -/
theorem grantsIntake_heard (s : Scheduler κ) (a : Advance κ) :
    a.GrantsIntake (fun t _ _ => t = a.heard) s where
  routine _ _ _ := rfl
  callBack _ _ := rfl
  effect _ _ _ _ := rfl
  add _ _ _ _ _ ha := by rw [ha]; rfl
  change _ _ _ _ _ ha := by rw [ha]; rfl
  forget _ _ _ _ _ _ ha _ _ _ _ _ _ _ _ _ _ _ := by rw [ha]; rfl
  adopt _ _ _ _ _ _ ha _ _ := by rw [ha]; rfl
  redefine _ _ _ _ _ ha := by rw [ha]; rfl

/-- All that follows is done at one instant as well. -/
theorem grantsSequel_looked (s : Scheduler κ) (a : Advance κ) :
    a.GrantsSequel (fun t _ _ => t = a.looked) s where
  later _ _ _ := rfl
  start _ _ _ _ ha _ _ _ _ _ := by rw [ha]; rfl

theorem takeIn_timed (hsound : s.registry.Sound) (hfollows : a.Follows now)
    (h : s.registry.Timed now) : (a.takeIn s).registry.Timed a.heard :=
  (Advance.takeIn_course hsound.run_key (grantsIntake_heard s a)).timed
    (h.mono hfollows.order.1)

theorem apply_timed (hsound : s.registry.Sound) (hfollows : a.Follows now)
    (h : s.registry.Timed now) : (a.apply s).registry.Timed a.shown := by
  have htaken := takeIn_timed hsound hfollows h
  obtain ⟨-, hlooked, hshown⟩ := hfollows.order
  exact ((Advance.sequel_course (grantsSequel_looked s a)).timed (htaken.mono hlooked)).mono hshown

theorem apply_continues (hsound : s.registry.Sound) :
    s.registry.Continues (a.apply s).registry :=
  (Advance.course hsound.run_key (a.grants_all s)).invariant_of_sound
    (I := fun s' => s.registry.Continues s'.registry) hsound
    ⟨Nat.le_refl _, fun _ m' hm' => .inl ⟨m', hm', rfl, Nat.le_refl _⟩⟩
    fun _ _ _ _ hsound hcontinues _ hdoes => (hdoes.remarks hsound).continues hcontinues

end Advance

theorem ReachedBy.timed {P : Scheduler κ → Advance κ → Prop} {config : Config κ}
    {session : Session κ} (h : ReachedBy P config session) :
    session.scheduler.registry.Timed session.now := by
  refine h.invariant (I := fun session => session.scheduler.registry.Timed session.now)
    (fun _ _ _ _ hrun => nomatch hrun) ?_
  rintro session a _ hreach htimed - ⟨-, hfollows, rest, -, rfl⟩
  exact Advance.apply_timed hreach.sound hfollows htimed

/-- **The registry is well formed in every history**, idle or not: after every advance, and also in
the midst of one, when the plan is not yet looked at.  From one advance to the next, runs keep their
numbers and never count fewer attempts, and the numbers of new runs are higher than all before. -/
theorem registry_wellFormed {config : Config κ} {session : Session κ}
    (h : Reachable config session) :
    session.scheduler.registry.WellFormed session.now ∧
      ∀ a next, session.Step a next →
        (a.takeIn session.scheduler).registry.WellFormed a.heard ∧
          next.scheduler.registry.WellFormed next.now ∧
          session.scheduler.registry.Continues next.scheduler.registry := by
  refine ⟨h.sound.wellFormed h.timed, ?_⟩
  intro a next hstep
  have hnext : Reachable config next := .step h trivial hstep
  refine ⟨?_, hnext.sound.wellFormed hnext.timed, ?_⟩
  · exact (Advance.takeIn_sound h.sound).wellFormed
      (Advance.takeIn_timed h.sound hstep.2.1 h.timed)
  · obtain ⟨-, -, rest, -, rfl⟩ := hstep
    exact Advance.apply_continues h.sound

/-- Four jobs, the first of which is being stopped, the second runs, the third is being started and
the last one waits. -/
def fourStates : Session ℚ :=
  (Session.play (fun _ _ => true) { scheduler := { config := startConfirms }, now := 0 }
    [(0, .request (.addExecutor { id := "a", capacity := 3 })),
      (0, .request (.addJob { id := "j1", cost := 1 })),
      (2, .answer 0 (.ok ())),
      (2, .request (.addJob { id := "j2", cost := 1 })),
      (3, .answer 0 (.ok ())),
      (4, .request (.stopJob "j1")),
      (5, .request (.addJob { id := "j3", cost := 1 })),
      (6, .request (.addJob { id := "j4", cost := 2 }))]).get (by decide +kernel)

theorem registry_wellFormed_fourStates :
    fourStates.scheduler.registry.allRuns.map (fun run => (run.job.id, run.ordinal, run.state)) =
        [("j1", 0, .stopping), ("j2", 1, .running), ("j3", 2, .starting), ("j4", 3, .pending)] ∧
      fourStates.scheduler.registry.WellFormed fourStates.now := by
  have hreach : Reachable startConfirms fourStates :=
    Session.play_reachedBy (fun _ _ _ => trivial) (.start 0 (by decide +kernel))
      (Option.some_get _).symm
  exact ⟨by decide +kernel, (registry_wellFormed hreach).1⟩

end Dispatch
