import Dispatch.Proofs.History.Binding
import Dispatch.Proofs.History.Idle
import Dispatch.Proofs.Plan.Limits

/-!
# The terms under which runs were placed

No run is meant to outlast a change of the capacity or the settings of its executor.  The planner
sees such a change by the revision of the executor, which a run keeps from when it was placed.

* `Ledger` : for each job the terms under which its run was placed, noted along a history from the
  executors of the moment and without a look at any revision (`RecordedBy`);
* `Ledger.Covers` : a run that passes for placed under the present definition of its executor was
  placed under its present terms;
* `Advance.Disguises` : an executor gets other terms under a revision that a run already has;
* `terms_kept_iff` : **an idle loop has every run on an executor with the terms noted for it exactly
  as long as no advance disguises a change**;
* `terms_kept_fails` : a history in which one does, since the revisions of an executor that is added
  again are counted from zero.
-/

namespace Dispatch

open Scheduler Registry

variable {κ : Type}

instance (run run' : Run κ) : Decidable (run.SameAttempt run') :=
  decidable_of_iff (run.ordinal = run'.ordinal ∧ run.attempt = run'.attempt)
    ⟨fun h => ⟨h.1, h.2⟩, fun h => ⟨h.ordinal, h.attempt⟩⟩

/-- The terms noted for the run of each job. -/
abbrev Ledger (κ : Type) := String → Option (Terms κ)

namespace Ledger

/-- The ledger after an advance.  What is noted for a run stands while it is placed by the same
attempt; for a run that has been placed meanwhile, the terms of its executor are noted.  They are
those of the moment at which it was placed, for no executor changes after that in the advance. -/
def next (l : Ledger κ) (before after : Registry κ) : Ledger κ := fun id =>
  match after.runs.get? id with
  | none => none
  | some run =>
    if (before.runs.get? id).any fun old => old.IsPlaced ∧ old.SameAttempt run then l id
    else (run.executor.bind after.executor?).map (·.terms)

/-- Every placed run is on an executor that has the terms noted for it. -/
def IsKept (l : Ledger κ) (r : Registry κ) : Prop :=
  ∀ run ∈ r.allRuns, ∀ executor, run.executor = some executor → run.stopping = false →
    ∃ e, r.executor? executor = some e ∧ l run.job.id = some e.terms

/-- A run that is placed under the present revision of its executor has its terms noted. -/
def Covers (l : Ledger κ) (r : Registry κ) : Prop :=
  ∀ id run executor e, r.runs.get? id = some run → run.executor = some executor →
    run.stopping = false → r.executor? executor = some e →
    run.executorRevision = some e.revision → l id = some e.terms

/-- Under this definition of its executor a placed run would pass for placed on terms that are not
those noted for it. -/
def Misleads (l : Ledger κ) (r : Registry κ) (e : Executor κ) : Prop :=
  ∃ run ∈ r.allRuns, run.executor = some e.id ∧ run.stopping = false ∧
    run.executorRevision = some e.revision ∧ l run.job.id ≠ some e.terms

instance [DecidableEq κ] (l : Ledger κ) (r : Registry κ) (e : Executor κ) :
    Decidable (l.Misleads r e) := by
  unfold Misleads
  infer_instance

variable {l : Ledger κ} {before after r : Registry κ} {id : String} {run run' : Run κ}
  {e e' : Executor κ}

/-- What is noted for a run that has stayed where it was. -/
theorem next_of_same (hrun : before.runs.get? id = some run)
    (hrun' : after.runs.get? id = some run') (hplaced : run.IsPlaced)
    (hsame : run.SameAttempt run') : l.next before after id = l id := by
  simp [next, hrun, hrun', hplaced, hsame]

/-- What is noted for a run that has been placed meanwhile. -/
theorem next_of_placed (hrun' : after.runs.get? id = some run')
    (hnew : ∀ run, before.runs.get? id = some run → run.IsPlaced → ¬ run.SameAttempt run')
    {executor : String} (hexec : run'.executor = some executor)
    (he : after.executor? executor = some e) : l.next before after id = some e.terms := by
  have hother : ¬ (before.runs.get? id).any fun old => old.IsPlaced ∧ old.SameAttempt run' := by
    cases hrun : before.runs.get? id with
    | none => simp
    | some run => simpa using hnew run hrun
  simp only [next, hrun', if_neg hother, hexec, Option.bind_some, he, Option.map_some]

theorem Misleads.congr (h : l.Misleads r e) (halike : e.Alike e') : l.Misleads r e' := by
  obtain ⟨run, hrun, hexec, hst, hrev, hterms⟩ := h
  refine ⟨run, hrun, ?_, hst, ?_, ?_⟩
  · rw [← halike.id]
    exact hexec
  · rw [← halike.revision]
    exact hrev
  · rw [← halike.terms]
    exact hterms

/-- When nothing has to stop, every placed run is there on the terms noted for it. -/
theorem Covers.isKept [Quantity κ] (h : l.Covers r) (hsound : r.Sound) {config : Config κ}
    {now : Instant} (hidle : (plan r config now).action = none) : l.IsKept r := by
  intro run hrun executor hexec hst
  obtain ⟨hstay, -, -⟩ := plannedStop?_eq_none_iff.1 (plan_idle.1 hidle).1
  obtain ⟨e, he, hrev⟩ := Run.of_mustStop?_eq_none (hstay run hrun) hexec hst
  exact ⟨e, he, h _ run executor e (hsound.get?_of_mem hrun) hexec hst he hrev⟩

end Ledger

variable [Quantity κ]

/-- An executor is added or redefined under a revision that a run on it already has, with terms that
are not those noted for the run. -/
inductive Advance.Disguises (l : Ledger κ) (s : Scheduler κ) : Advance κ → Prop
  | added {ticket : Ticket} {e : Executor κ} {heard looked shown : Instant} {r : Registry κ} :
      s.registry.addExecutor e heard = .ok r → l.Misleads s.registry e →
      Disguises l s (.turn (.request ticket (.addExecutor e)) heard looked shown)
  | changed {ticket : Ticket} {e old : Executor κ} {heard looked shown : Instant} :
      Quantity.isValid e.capacity = true → s.registry.executor? e.id = some old →
      l.Misleads s.registry (redefine old e) →
      Disguises l s (.turn (.request ticket (.changeExecutor e)) heard looked shown)

/-- The sessions reached by advances of which each satisfies `P` when it is made, each with the
ledger noted along its history. -/
inductive RecordedBy (P : Ledger κ → Scheduler κ → Advance κ → Prop) (config : Config κ) :
    Session κ → Ledger κ → Prop
  | start (now : Instant) : config.validate = .ok () →
      RecordedBy P config { scheduler := { config }, now } fun _ => none
  | step {s s' : Session κ} {l : Ledger κ} {a : Advance κ} : RecordedBy P config s l →
      P l s.scheduler a → s.Step a s' →
      RecordedBy P config s' (l.next s.scheduler.registry s'.scheduler.registry)

section Histories

variable {P : Ledger κ → Scheduler κ → Advance κ → Prop} {config : Config κ} {session : Session κ}
  {l : Ledger κ} {s : Scheduler κ} {a : Advance κ}

theorem RecordedBy.reachable (h : RecordedBy P config session l) : Reachable config session := by
  induction h with
  | start now hc => exact .start now hc
  | step _ _ hstep ih => exact .step ih trivial hstep

/-- A ledger can be kept along every history. -/
theorem reachable_iff_recorded :
    Reachable config session ↔ ∃ l, RecordedBy (fun _ _ _ => True) config session l := by
  constructor
  · intro h
    induction h with
    | start now hc => exact ⟨_, .start now hc⟩
    | step _ _ hstep ih =>
      obtain ⟨l, hl⟩ := ih
      exact ⟨_, .step hl trivial hstep⟩
  · rintro ⟨l, hl⟩
    exact hl.reachable

/-- **What an advance keeps**: unless it disguises a change, the ledger covers the registry
afterwards if it did before. -/
theorem Advance.apply_covers (hsound : s.registry.Sound) (h : l.Covers s.registry)
    (hplain : ¬ a.Disguises l s) :
    (l.next s.registry (a.apply s).registry).Covers (a.apply s).registry := by
  intro id run' executor e' hrun' hexec hst he' hrev
  obtain ⟨hmem, hid⟩ := mem_of_executor? he'
  have hplaced : run'.IsPlaced := ⟨by simp [hexec], hst⟩
  by_cases hsame : ∃ run, s.registry.runs.get? id = some run ∧ run.IsPlaced ∧ run.SameAttempt run'
  · obtain ⟨run, hrun, hwas, hsame⟩ := hsame
    have hplace := Advance.placed_eq hsound hrun hrun' hplaced hsame
    rw [Ledger.next_of_same hrun hrun' hwas hsame]
    have hexec' : run.executor = some e'.id := by rw [hplace.executor, hexec, hid]
    have hrev' : run.executorRevision = some e'.revision := hplace.revision.trans hrev
    -- terms other than those noted would be a disguise when they are new
    have hmisled (hne : l id ≠ some e'.terms) : l.Misleads s.registry e' :=
      ⟨run, Table.mem_values hrun, hexec', hwas.2, hrev', by rw [hsound.run_key hrun]; exact hne⟩
    cases Advance.offers hsound hmem with
    | kept e mem alike =>
      rw [← alike.terms]
      refine h id run e.id e hrun ?_ hwas.2 (hsound.executor?_eq mem) ?_
      · rw [alike.id]
        exact hexec'
      · rw [alike.revision]
        exact hrev'
    | added ticket e heard looked shown r request ok alike =>
      subst request
      by_contra hne
      have halike : e'.Alike e := ⟨alike.id.symm, alike.revision.symm, alike.terms.symm⟩
      exact hplain (.added ok ((hmisled hne).congr halike))
    | changed ticket e old heard looked shown request valid old_eq alike =>
      subst request
      by_contra hne
      have halike : e'.Alike (redefine old e) :=
        ⟨alike.id.symm, alike.revision.symm, alike.terms.symm⟩
      exact hplain (.changed valid old_eq ((hmisled hne).congr halike))
  · refine Ledger.next_of_placed hrun' (fun run hrun hwas hattempt => ?_) hexec he'
    exact hsame ⟨run, hrun, hwas, hattempt⟩

theorem RecordedBy.covers (h : RecordedBy (fun l s a => ¬ a.Disguises l s) config session l) :
    l.Covers session.scheduler.registry := by
  induction h with
  | start => exact fun _ _ _ _ hrun => nomatch hrun
  | step hrecorded hplain hstep ih =>
    obtain ⟨-, -, rest, -, rfl⟩ := hstep
    exact Advance.apply_covers hrecorded.reachable.sound ih hplain

/-- A run that is misled stays where it is, on terms that are not those noted for it. -/
theorem Ledger.Misleads.not_isKept {r : Registry κ} {e e' : Executor κ} (hsound : s.registry.Sound)
    (h : l.Misleads s.registry e) (hruns : r.runs = s.registry.runs)
    (he' : r.executor? e.id = some e') (halike : e.Alike e') :
    ¬ (l.next s.registry r).IsKept r := by
  intro hkept
  obtain ⟨run, hrun, hexec, hst, hrev, hterms⟩ := h
  have hrun' : run ∈ r.allRuns := by
    rw [allRuns, hruns]
    exact hrun
  obtain ⟨e'', he'', hnoted⟩ := hkept run hrun' e.id hexec hst
  rw [he', Option.some.injEq] at he''
  subst he''
  have hget := hsound.get?_of_mem hrun
  rw [Ledger.next_of_same hget (by rw [hruns]; exact hget) ⟨by simp [hexec], hst⟩ ⟨rfl, rfl⟩]
    at hnoted
  exact hterms (by rw [hnoted, halike.terms])

/-- A change that is disguised goes unnoticed if the advance leaves nothing to be done at once. -/
theorem Advance.Disguises.not_isKept (hsound : s.registry.Sound) (h : a.Disguises l s)
    (hdue : (a.apply s).refreshDue = false) :
    ¬ (l.next s.registry (a.apply s).registry).IsKept (a.apply s).registry := by
  have hsound' : (a.apply s).registry.Sound := Advance.apply_sound hsound
  cases h with
  | @added ticket e heard looked shown r hr hmisleads =>
    have hreg : ((Advance.turn (.request ticket (.addExecutor e)) heard looked shown).apply
        s).registry = r := by
      rw [Advance.apply, turnAt_idle hdue]
      simp [accept, handle, withRegistry, hr]
    rw [hreg] at hsound' ⊢
    obtain ⟨-, -, rfl⟩ := of_addExecutor hr
    have he := hsound'.executor?_eq (e := { e with keptAliveAt := e.keptAliveAt.or (some heard) })
      (List.mem_append_right _ List.mem_cons_self)
    exact hmisleads.not_isKept hsound rfl he ⟨rfl, rfl, rfl⟩
  | @changed ticket e old heard looked shown hvalid hold hmisleads =>
    have hreg : ((Advance.turn (.request ticket (.changeExecutor e)) heard looked shown).apply
        s).registry = s.registry.modifyExecutor e.id (redefine · e) := by
      rw [Advance.apply, turnAt_idle hdue]
      simp [accept, handle, withRegistry, Registry.changeExecutor, checkCapacity, hvalid, hold,
        Except.map]
    rw [hreg] at hsound' ⊢
    obtain ⟨hmem, hid⟩ := mem_of_executor? hold
    have hmem' : redefine old e ∈ (s.registry.modifyExecutor e.id (redefine · e)).executors :=
      List.mem_map.2 ⟨old, hmem, if_pos hid⟩
    exact hmisleads.not_isKept hsound rfl (hsound'.executor?_eq hmem') (.refl _)

/-- **No run outlasts a change of its executor exactly as long as no change is disguised.**  A
ledger can be kept along every history.  As long as no advance disguises a change, every placed run
is on an executor with the terms noted for it whenever the planner has no action, so also while the
loop is idle; and it is so in an idle loop after the next advance exactly when that advance does not
disguise a change either. -/
theorem terms_kept_iff (config : Config κ) :
    (∀ session, Reachable config session ↔
      ∃ l, RecordedBy (fun _ _ _ => True) config session l) ∧
    ∀ session l, RecordedBy (fun l s a => ¬ a.Disguises l s) config session l →
      (∀ now, (plan session.scheduler.registry session.scheduler.config now).action = none →
        l.IsKept session.scheduler.registry) ∧
      (session.scheduler.stage = .serving → session.scheduler.refreshDue = false →
        l.IsKept session.scheduler.registry) ∧
      ∀ a next, session.Step a next → next.scheduler.stage = .serving →
        next.scheduler.refreshDue = false →
        ((l.next session.scheduler.registry next.scheduler.registry).IsKept
          next.scheduler.registry ↔ ¬ a.Disguises l session.scheduler) := by
  refine ⟨fun session => reachable_iff_recorded, ?_⟩
  intro session l h
  have hsound := h.reachable.sound
  refine ⟨fun now hidle => h.covers.isKept hsound hidle, fun hserving hdue => ?_, ?_⟩
  · obtain ⟨looked, shown, -, -, hwaits⟩ := h.reachable.waits hserving hdue
    exact h.covers.isKept hsound hwaits.idle
  · intro a next hstep hserving hdue
    have hreach : Reachable config next := .step h.reachable trivial hstep
    obtain ⟨looked, shown, -, -, hwaits⟩ := hreach.waits hserving hdue
    obtain ⟨-, -, rest, -, rfl⟩ := hstep
    constructor
    · intro hkept hdisguises
      exact hdisguises.not_isKept hsound hdue hkept
    · intro hplain
      exact (Advance.apply_covers hsound h.covers hplain).isKept hreach.sound hwaits.idle

end Histories

/-! ### Two histories -/

namespace Session

/-- A replay that keeps the ledger. -/
def record (allowed : Ledger κ → Scheduler κ → Advance κ → Bool) (s : Session κ) (l : Ledger κ) :
    List (Instant × Cue κ) → Option (Session κ × Ledger κ)
  | [] => some (s, l)
  | (t, cue) :: cues =>
    match cue.advance? s t with
    | none => none
    | some (a, rest) =>
      if a.Due s.scheduler ∧ a.Follows s.now ∧ allowed l s.scheduler a = true then
        (s.after a rest).record allowed
          (l.next s.scheduler.registry (s.after a rest).scheduler.registry) cues
      else none

theorem record_recordedBy {allowed : Ledger κ → Scheduler κ → Advance κ → Bool}
    {P : Ledger κ → Scheduler κ → Advance κ → Prop} (hP : ∀ l s a, allowed l s a = true → P l s a)
    {config : Config κ} {cues : List (Instant × Cue κ)} {s s' : Session κ} {l l' : Ledger κ}
    (h : RecordedBy P config s l) (hrecord : s.record allowed l cues = some (s', l')) :
    RecordedBy P config s' l' := by
  induction cues generalizing s l with
  | nil =>
    obtain ⟨rfl, rfl⟩ : s = s' ∧ l = l' := by simpa [record] using hrecord
    exact h
  | cons cue cues ih =>
    obtain ⟨t, cue⟩ := cue
    rw [record] at hrecord
    split at hrecord
    · cases hrecord
    rename_i a rest hcue
    split at hrecord
    · rename_i hok
      exact ih (.step h (hP _ _ _ hok.2.2) ⟨hok.1, hok.2.1, rest, Cue.takes hcue, rfl⟩) hrecord
    · cases hrecord

end Session

/-- A check that an advance does not disguise a change. -/
def Advance.isPlain [DecidableEq κ] (l : Ledger κ) (s : Scheduler κ) : Advance κ → Bool
  | .turn (.request _ (.addExecutor e)) .. => !decide (l.Misleads s.registry e)
  | .turn (.request _ (.changeExecutor e)) .. =>
    (s.registry.executor? e.id).all fun old => !decide (l.Misleads s.registry (redefine old e))
  | _ => true

theorem Advance.not_disguises [DecidableEq κ] {l : Ledger κ} {s : Scheduler κ} {a : Advance κ}
    (h : a.isPlain l s = true) : ¬ a.Disguises l s := by
  rintro (⟨-, hmisleads⟩ | ⟨-, hold, hmisleads⟩)
  · simp [isPlain, hmisleads] at h
  · simp [isPlain, hold, hmisleads] at h

/-- A job runs on an executor when the capacity and the settings of the executor are changed; it is
stopped, and started again under the new terms. -/
def resettled : Session ℚ × Ledger ℚ :=
  (Session.record Advance.isPlain { scheduler := { config := startConfirms }, now := 0 }
    (fun _ => none)
    [(0, .request (.addExecutor { id := "A", capacity := 10 })),
      (0, .request (.addJob { id := "j", cost := 5 })),
      (0, .answer 0 (.ok ())),
      (1, .request (.changeExecutor { id := "A", capacity := 8, settingsHash := 7 })),
      (2, .answer 0 (.ok ())),
      (3, .answer 0 (.ok ()))]).get (by decide +kernel)

theorem terms_kept_resettled :
    (resettled.1.scheduler.registry.allRuns.map fun run => (run.job.id, run.executor,
        run.executorRevision, run.state)) = [("j", some "A", some 1, .running)] ∧
      resettled.2 "j" = some ⟨8, 7⟩ ∧ resettled.2.IsKept resettled.1.scheduler.registry := by
  have hrecorded : RecordedBy (fun l s a => ¬ a.Disguises l s) startConfirms resettled.1
      resettled.2 :=
    Session.record_recordedBy (fun _ _ _ => Advance.not_disguises) (.start 0 (by decide +kernel))
      (Option.some_get _).symm
  obtain ⟨-, hidle, -⟩ := (terms_kept_iff startConfirms).2 resettled.1 resettled.2 hrecorded
  exact ⟨by decide +kernel, by decide +kernel, hidle (by decide +kernel) (by decide +kernel)⟩

/-- Two jobs run on an executor that is removed, and added again with other settings while only the
first of them has been stopped. -/
def replaced : Session ℚ × Ledger ℚ :=
  (Session.record (fun _ _ _ => true) { scheduler := { config := startConfirms }, now := 0 }
    (fun _ => none)
    [(0, .request (.addExecutor { id := "A", capacity := 10 })),
      (0, .request (.addJob { id := "j1", cost := 1 })),
      (0, .answer 0 (.ok ())),
      (0, .request (.addJob { id := "j2", cost := 1 })),
      (0, .answer 0 (.ok ())),
      (0, .request (.removeExecutor "A")),
      (0, .request (.addExecutor { id := "A", capacity := 10, settingsHash := 7 }))]).get
    (by decide +kernel)

/-- Nothing is left to do, and the second job runs on settings that it was not placed under. -/
theorem terms_kept_fails :
    RecordedBy (fun _ _ _ => True) startConfirms replaced.1 replaced.2 ∧
      replaced.1.scheduler.stage = .serving ∧ replaced.1.scheduler.refreshDue = false ∧
      (replaced.1.scheduler.registry.allRuns.map fun run => (run.job.id, run.executor,
        run.state)) = [("j1", some "A", .stopping), ("j2", some "A", .running)] ∧
      replaced.2 "j2" = some ⟨10, 0⟩ ∧
      (replaced.1.scheduler.registry.executor? "A").map (·.terms) = some ⟨10, 7⟩ ∧
      ¬ replaced.2.IsKept replaced.1.scheduler.registry := by
  have hrecorded : RecordedBy (fun _ _ _ => True) startConfirms replaced.1 replaced.2 :=
    Session.record_recordedBy (fun _ _ _ _ => trivial) (.start 0 (by decide +kernel))
      (Option.some_get _).symm
  have hnoted : replaced.2 "j2" = some ⟨10, 0⟩ := by decide +kernel
  have hterms : (replaced.1.scheduler.registry.executor? "A").map (·.terms) = some ⟨10, 7⟩ := by
    decide +kernel
  refine ⟨hrecorded, by decide +kernel, by decide +kernel, by decide +kernel, hnoted, hterms, ?_⟩
  intro hkept
  have hfound : replaced.1.scheduler.registry.allRuns.any (fun run => run.job.id = "j2" ∧
      run.executor = some "A" ∧ run.stopping = false) = true := by decide +kernel
  obtain ⟨run, hrun, hrunning⟩ := List.any_eq_true.1 hfound
  obtain ⟨hjob, hexec, hst⟩ := of_decide_eq_true hrunning
  obtain ⟨e, he, hkept⟩ := hkept run hrun "A" hexec hst
  rw [hjob, hnoted, Option.some.injEq] at hkept
  rw [he, Option.map_some, Option.some.injEq, ← hkept] at hterms
  exact absurd hterms (by decide)

end Dispatch
