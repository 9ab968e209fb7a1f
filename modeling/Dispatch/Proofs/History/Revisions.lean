import Dispatch.Proofs.History.Binding
import Dispatch.Proofs.History.Idle
import Dispatch.Proofs.Plan.Limits

/-!
# Runs and the revisions of their jobs

A run carries the definition of its job of some moment, and both count revisions.  The planner
compares no more than these: a placed run whose revision is not the registered one has to stop.

* `Job.Precedes` : an earlier definition, or the same one if the revision is the same;
* `Does.dated`, `ReachedBy.dated` : every run carries a definition that precedes the registered one,
  as long as revisions are not counted beyond their range (`Advance.Wraps`);
* `Registry.Dated.caughtUp` : where nothing has to stop, placed runs carry the registered
  definition;
* `definitions_caught_up` : **placed runs catch up with the definitions of their jobs**, in every
  history.

Pending runs need not carry the registered definition: `Dispatch.Proofs.History.Pending` says when
they do.  A pending run that does not is started under the registered definition, or else adopted as
it is, and then it has to stop.
-/

namespace Dispatch

open Scheduler Registry

variable {κ : Type}

/-- One definition of a job counts fewer changes than the other, or is the same. -/
structure Job.Precedes (earlier later : Job κ) : Prop where
  le : earlier.revision ≤ later.revision
  same : earlier.revision = later.revision → earlier = later

theorem Job.Precedes.refl (job : Job κ) : job.Precedes job := ⟨UInt64.le_refl _, fun _ => rfl⟩

/-- A definition precedes what a change makes of a later one, if the change can be counted. -/
theorem Job.Precedes.changed {earlier later : Job κ} (h : earlier.Precedes later) (job : Job κ)
    (hcounts : later.revision.toNat + 1 < 2 ^ 64) :
    earlier.Precedes { job with revision := later.revision + 1 } := by
  have hnext : (later.revision + 1).toNat = later.revision.toNat + 1 := by
    rw [UInt64.toNat_add]
    exact Nat.mod_eq_of_lt hcounts
  have hle : earlier.revision.toNat ≤ later.revision.toNat := UInt64.le_iff_toNat_le.1 h.le
  refine ⟨UInt64.le_iff_toNat_le.2 ?_, fun heq => ?_⟩
  · simp only [hnext]
    omega
  · have hnat := congrArg UInt64.toNat heq
    simp only [hnext] at hnat
    omega

namespace Registry

variable {r r' : Registry κ} {id : String} {run : Run κ}

/-- Every run carries a definition that precedes the registered one. -/
def Dated (r : Registry κ) : Prop :=
  ∀ id run job, r.runs.get? id = some run → r.jobs.get? id = some job → run.job.Precedes job

/-- Every placed run carries the registered definition of its job. -/
def CaughtUp (r : Registry κ) : Prop :=
  ∀ run ∈ r.allRuns, run.IsPlaced → r.jobs.get? run.job.id = some run.job

/-- To replace the definition of the job would be one change more than a revision can count. -/
def Wraps [Quantity κ] (r : Registry κ) (job : Job κ) : Prop :=
  Quantity.isValid job.cost = true ∧
    ∃ old ∈ r.jobs.get? job.id, 2 ^ 64 ≤ old.revision.toNat + 1

instance [Quantity κ] (r : Registry κ) (job : Job κ) : Decidable (r.Wraps job) :=
  inferInstanceAs (Decidable (_ ∧ _))

namespace Dated

theorem empty : (∅ : Registry κ).Dated := fun _ _ _ h => by cases h

theorem modifyRun (h : r.Dated) (hrun : r.runs.get? id = some run) {f : Run κ → Run κ}
    (hnew : ∀ job, r.jobs.get? id = some job → (f run).job.Precedes job) :
    (r.modifyRun id f).Dated := by
  intro id' run' job hrun' hjob
  rw [get?_modifyRun hrun] at hrun'
  split at hrun'
  · rename_i hid
    obtain rfl := Option.some.inj hrun'
    exact hnew job (hid ▸ hjob)
  · exact h id' run' job hrun' hjob

/-- A run that goes on with the definition that it carries. -/
theorem moveRun (h : r.Dated) (hrun : r.runs.get? id = some run) {f : Run κ → Run κ}
    (hsame : (f run).job = run.job) : (r.modifyRun id f).Dated :=
  h.modifyRun hrun fun job hjob => hsame ▸ h id run job hrun hjob

/-- A run that is given the registered definition. -/
theorem renewRun (h : r.Dated) (hrun : r.runs.get? id = some run) {f : Run κ → Run κ}
    {definition : Job κ} (hdef : r.jobs.get? id = some definition)
    (hnew : (f run).job = definition) : (r.modifyRun id f).Dated := by
  refine h.modifyRun hrun fun job hjob => ?_
  obtain rfl : definition = job := Option.some.inj (hdef.symm.trans hjob)
  exact hnew ▸ .refl _

theorem removeRun (h : r.Dated) : (r.removeRun id).Dated := by
  intro id' run' job hrun' hjob
  simp only [Registry.removeRun, Table.get?_erase] at hrun' hjob
  split at hrun'
  · cases hrun'
  · rename_i hid
    rw [if_neg hid] at hjob
    exact h id' run' job hrun' hjob

variable [Quantity κ]

theorem addJob (h : r.Dated) (hsound : r.Sound) {job : Job κ} (hadd : r.addJob job = .ok r') :
    r'.Dated := by
  obtain ⟨-, hnew, rfl⟩ := of_addJob hadd
  intro id' run' job' hrun' hjob'
  simp only [Table.get?_addNew] at hrun' hjob'
  by_cases hid : id' = job.id
  · have hnorun := hsound.get?_runs_eq_none hnew
    simp only [hid, hnew, hnorun, if_pos, Option.none_or, Option.some.injEq] at hrun' hjob'
    rw [← hrun', ← hjob']
    exact .refl job
  · simp only [if_neg hid, Option.or_none] at hrun' hjob'
    exact h id' run' job' hrun' hjob'

theorem changeJob (h : r.Dated) {job : Job κ} (hcounts : ¬ r.Wraps job)
    (hchange : r.changeJob job = .ok r') : r'.Dated := by
  obtain ⟨old, hvalid, hold, rfl⟩ := of_changeJob hchange
  have hlt : old.revision.toNat + 1 < 2 ^ 64 :=
    Nat.not_le.1 fun hle => hcounts ⟨hvalid, old, hold, hle⟩
  intro id' run' job' hrun' hjob'
  simp only [Table.get?_modify] at hrun' hjob'
  by_cases hid : id' = job.id
  · subst hid
    simp only [if_pos, hold, Option.map_some, Option.some.injEq, Option.map_eq_some_iff]
      at hrun' hjob'
    obtain ⟨run, hrun, rfl⟩ := hrun'
    obtain rfl := hjob'
    -- a pending run is given the new definition, any other one keeps what precedes the old one
    cases hpending : run.isPending with
    | true => exact .refl _
    | false => exact (h _ run old hrun hold).changed job hlt
  · simp only [if_neg hid] at hrun' hjob'
    exact h id' run' job' hrun' hjob'

/-- When nothing has to stop, every placed run carries the registered definition. -/
theorem caughtUp (h : r.Dated) (hsound : r.Sound) {config : Config κ} {now : Instant}
    (hidle : (plan r config now).action = none) : r.CaughtUp := by
  intro run hmem hplaced
  obtain ⟨hstay, -, -⟩ := plannedStop?_eq_none_iff.1 (plan_idle.1 hidle).1
  have hrun := hsound.get?_of_mem hmem
  obtain ⟨job, hjob⟩ := hsound.job_of_run hrun
  obtain ⟨executor, hexec⟩ := Option.isSome_iff_exists.1 hplaced.1
  have hrevision := Run.revision_of_mustStop?_eq_none (hstay run hmem) hexec hplaced.2
  rw [hjob, Option.map_some, Option.some.injEq] at hrevision
  rw [hjob, (h _ run job hrun hjob).same hrevision.symm]

end Dated

end Registry

/-- The deed redefines a job once more than its revision can count. -/
def Deed.Wraps [Quantity κ] (s : Scheduler κ) (d : Deed κ) : Prop :=
  ∃ job, d = .changeJob job ∧ s.registry.Wraps job

/-- A request redefines a job once more than its revision can count. -/
def Advance.Wraps [Quantity κ] (s : Scheduler κ) (a : Advance κ) : Prop :=
  ∃ job, a.command? = some (.changeJob job) ∧ s.registry.Wraps job

variable [Quantity κ] {now : Instant} {s s' : Scheduler κ} {d : Deed κ} {a : Advance κ}

theorem Does.dated (hdoes : Does now s d s') (hsound : s.registry.Sound) (h : s.registry.Dated)
    (hcounts : ¬ d.Wraps s) : s'.registry.Dated := by
  cases hdoes with
  | aside hsame => rw [hsame.registry]; exact h
  | callBack => exact h
  | limit => exact h
  | say => exact h
  | addJob hr => exact h.addJob hsound hr
  | changeJob hr => exact h.changeJob (fun hwraps => hcounts ⟨_, rfl, hwraps⟩) hr
  | addExecutor hr =>
    obtain ⟨-, -, rfl⟩ := of_addExecutor hr
    exact h
  | removeExecutor hr =>
    obtain rfl := of_removeExecutor hr
    exact h
  | changeExecutor hr =>
    obtain ⟨-, -, -, -, rfl⟩ := of_changeExecutor hr
    exact h
  | keepAlive hr =>
    obtain rfl := of_keepAlive hr
    exact h
  | start he hdef hrun => exact h.renewRun hrun hdef rfl
  | confirm hrun => exact h.moveRun hrun rfl
  | mark hrun => exact h.moveRun hrun rfl
  | discard => exact h.removeRun
  | stop hrun => exact h.moveRun hrun rfl
  | release hrun => exact h.moveRun hrun rfl
  | settle hrun =>
    obtain ⟨definition, hdef⟩ := hsound.job_of_run hrun
    simp only [report_registry, put_registry, noteStop_registry, hdef, Option.getD_some]
    exact h.renewRun hrun hdef rfl
  | finish =>
    simp only [drop_registry, noteStop_registry]
    exact h.removeRun
  | forget hrun => exact h.moveRun hrun rfl
  | adopt _ hrun => exact h.moveRun hrun rfl
  | expel _ hrun => exact h.moveRun hrun rfl

theorem Course.dated (h : Course (fun _ s d => ¬ d.Wraps s) s s') (hsound : s.registry.Sound)
    (hs : s.registry.Dated) : s'.registry.Dated :=
  h.invariant_of_sound (I := fun s => s.registry.Dated) hsound hs
    fun _ _ _ _ hsound hdated hcounts hdoes => hdoes.dated hsound hdated hcounts

namespace Advance

theorem grants_dated (h : ¬ a.Wraps s) : a.Grants (fun _ s d => ¬ d.Wraps s) s where
  routine _ d hd := by
    rintro ⟨job, rfl, -⟩
    exact hd
  later _ d hd := by
    rintro ⟨job, rfl, -⟩
    exact hd
  callBack _ _ := by simp [Deed.Wraps]
  effect c d _ hd := by
    obtain ⟨run, -, -, hreturns⟩ := effect?_eq_some_iff.1 hd
    cases hreturns <;> simp [Deed.Wraps]
  add _ _ _ _ _ _ := by simp [Deed.Wraps]
  change _ _ _ _ _ _ := by simp [Deed.Wraps]
  forget _ _ _ _ _ _ _ _ _ _ _ _ _ _ _ _ _ _ := by simp [Deed.Wraps]
  adopt _ _ _ _ _ _ _ _ _ := by simp [Deed.Wraps]
  start _ _ _ _ _ _ _ _ _ _ := by simp [Deed.Wraps]
  redefine ticket job heard looked shown ha := by
    rintro ⟨job', heq, hwraps⟩
    obtain rfl := Deed.changeJob.inj heq
    subst ha
    exact h ⟨job, rfl, hwraps⟩

theorem takeIn_dated (hsound : s.registry.Sound) (h : s.registry.Dated) (hcounts : ¬ a.Wraps s) :
    (a.takeIn s).registry.Dated :=
  (takeIn_course hsound.run_key (grants_dated hcounts).toGrantsIntake).dated hsound h

end Advance

theorem ReachedBy.dated {P : Scheduler κ → Advance κ → Prop} {config : Config κ}
    {session : Session κ} (hP : ∀ s a, P s a → ¬ a.Wraps s) (h : ReachedBy P config session) :
    session.scheduler.registry.Dated := by
  refine h.invariant (I := fun session => session.scheduler.registry.Dated)
    (fun _ _ => Dated.empty) ?_
  rintro session a _ hreach hdated hallowed ⟨-, -, rest, -, rfl⟩
  exact (Advance.course hreach.sound.run_key (Advance.grants_dated (hP _ _ hallowed))).dated
    hreach.sound hdated

/-- **Placed runs catch up with the definitions of their jobs.**  As long as no revision is counted
beyond its range, every run carries the registered definition of its job or one of a lower revision,
after each advance and also when the plan is looked at; and whenever the planner has no action, so
in particular while the loop waits, every run that is placed carries the registered definition. -/
theorem definitions_caught_up {config : Config κ} {session : Session κ}
    (h : ReachedBy (fun s a => ¬ a.Wraps s) config session) :
    (∀ id run, session.scheduler.registry.runs.get? id = some run →
      ∃ job, session.scheduler.registry.jobs.get? id = some job ∧
        run.job.revision ≤ job.revision ∧ (run.job.revision = job.revision → run.job = job)) ∧
    (∀ now, (plan session.scheduler.registry session.scheduler.config now).action = none →
      session.scheduler.registry.CaughtUp) ∧
    (session.scheduler.stage = .serving → session.scheduler.refreshDue = false →
      session.scheduler.registry.CaughtUp) ∧
    ∀ a next, session.Step a next → ¬ a.Wraps session.scheduler →
      (a.takeIn session.scheduler).registry.Dated ∧
        ((plan (a.takeIn session.scheduler).registry (a.takeIn session.scheduler).config
          a.looked).action = none → (a.takeIn session.scheduler).registry.CaughtUp) := by
  have hdated : session.scheduler.registry.Dated := h.dated fun _ _ hcounts => hcounts
  refine ⟨fun id run hrun => ?_, fun now hidle => hdated.caughtUp h.sound hidle, ?_, ?_⟩
  · obtain ⟨job, hjob⟩ := h.sound.job_of_run hrun
    obtain ⟨hle, hsame⟩ := hdated id run job hrun hjob
    exact ⟨job, hjob, hle, hsame⟩
  · intro hserving hdue
    obtain ⟨looked, shown, -, -, hwaits⟩ := h.waits hserving hdue
    exact hdated.caughtUp h.sound hwaits.idle
  · intro a next _ hcounts
    have htaken := Advance.takeIn_dated h.sound hdated hcounts
    exact ⟨htaken, htaken.caughtUp (Advance.takeIn_sound h.sound)⟩

/-- A check that a request redefines no job once more than its revision can count. -/
def Advance.counts (s : Scheduler κ) (a : Advance κ) : Bool :=
  match a.command? with
  | some (.changeJob job) => !decide (s.registry.Wraps job)
  | _ => true

theorem Advance.not_wraps (h : a.counts s = true) : ¬ a.Wraps s := by
  rintro ⟨job, hcommand, hwraps⟩
  simp [counts, hcommand, hwraps] at h

/-- A job is redefined while it runs, and again while it is being stopped for that; another one is
adopted while the first is started again. -/
def redefinedTwice : Session ℚ :=
  (Session.play (fun s a => a.counts s) { scheduler := { config := startConfirms }, now := 0 }
    [(0, .request (.addExecutor { id := "A", capacity := 10 })),
      (0, .request (.addJob { id := "j", cost := 1, revision := 5 })),
      (1, .answer 0 (.ok ())),
      (2, .request (.changeJob { id := "j", cost := 2 })),
      (3, .request (.changeJob { id := "j", name := "long", duration := 100, cost := 3 })),
      (4, .answer 0 (.ok ())),
      (5, .request (.addJob { id := "k", cost := 4 })),
      (6, .request (.jobsOnExecutor "A" ["j", "k"])),
      (7, .answer 0 (.ok ()))]).get (by decide +kernel)

theorem definitions_caught_up_redefinedTwice :
    (redefinedTwice.scheduler.registry.allRuns.map fun run =>
        (run.job.id, run.job.name, run.job.revision, run.state)) =
          [("j", "long", 7, .running), ("k", "k", 0, .running)] ∧
      redefinedTwice.scheduler.registry.CaughtUp := by
  have hreach : ReachedBy (fun s a => ¬ a.Wraps s) startConfirms redefinedTwice :=
    Session.play_reachedBy (fun _ _ => Advance.not_wraps) (.start 0 (by decide +kernel))
      (Option.some_get _).symm
  exact ⟨by decide +kernel,
    (definitions_caught_up hreach).2.2.1 (by decide +kernel) (by decide +kernel)⟩

end Dispatch
