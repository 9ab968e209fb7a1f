import Dispatch.Proofs.History.Turn
import Dispatch.Proofs.History.WellFormed
import Dispatch.Proofs.Registry.Load

/-!
# Where executors and bindings come from

A run is placed while it is on an executor and not being stopped.  It is placed by a start or an
adoption, each of which counts one more attempt, so that a run found placed under the same number
and attempt is where it was.

* `Does.executor_cases`, `Advance.offers` : an executor was there under the same revision with the
  same terms, or it has just been added or redefined;
* `Does.placed_cases` : a placed run was placed so before, or has made one more attempt;
* `Advance.placed_eq` : **a run keeps its executor and the revision it was placed under** as long
  as it is placed and makes no other attempt.
-/

namespace Dispatch

variable {κ : Type}

/-- What an executor offers that its runs do not survive a change of. -/
structure Terms (κ : Type) where
  capacity : κ
  settingsHash : UInt64
deriving DecidableEq

/-- The terms of an executor as it is defined now. -/
def Executor.terms (e : Executor κ) : Terms κ := ⟨e.capacity, e.settingsHash⟩

/-- Two definitions of an executor that differ at most in its name, in whether it is paused and in
when it last reported. -/
structure Executor.Alike (e e' : Executor κ) : Prop where
  id : e.id = e'.id
  revision : e.revision = e'.revision
  terms : e.terms = e'.terms

namespace Executor.Alike

variable {e e' e'' : Executor κ}

theorem refl (e : Executor κ) : e.Alike e := ⟨rfl, rfl, rfl⟩

theorem trans (h : e.Alike e') (h' : e'.Alike e'') : e.Alike e'' :=
  ⟨h.id.trans h'.id, h.revision.trans h'.revision, h.terms.trans h'.terms⟩

theorem capacity (h : e.Alike e') : e.capacity = e'.capacity := congrArg Terms.capacity h.terms

end Executor.Alike

/-- On an executor, and not on the way off it. -/
def Run.IsPlaced (run : Run κ) : Prop := run.executor.isSome = true ∧ run.stopping = false

instance (run : Run κ) : Decidable run.IsPlaced := inferInstanceAs (Decidable (_ ∧ _))

/-- The same run in the same attempt. -/
structure Run.SameAttempt (run run' : Run κ) : Prop where
  ordinal : run.ordinal = run'.ordinal
  attempt : run.attempt = run'.attempt

/-- A run that is where the other one is, by the same attempt. -/
structure Run.SamePlace (run run' : Run κ) : Prop extends run.SameAttempt run' where
  executor : run.executor = run'.executor
  revision : run.executorRevision = run'.executorRevision
  stopping : run.stopping = run'.stopping

namespace Run

variable {run run' run'' : Run κ}

theorem SamePlace.refl (run : Run κ) : run.SamePlace run := ⟨⟨rfl, rfl⟩, rfl, rfl, rfl⟩

theorem SamePlace.trans (h : run.SamePlace run') (h' : run'.SamePlace run'') :
    run.SamePlace run'' :=
  ⟨⟨h.ordinal.trans h'.ordinal, h.attempt.trans h'.attempt⟩, h.executor.trans h'.executor,
    h.revision.trans h'.revision, h.stopping.trans h'.stopping⟩

/-- Where a run comes from: it was in the same place, or it has made another attempt since. -/
def ComesFrom (run' run : Run κ) : Prop :=
  run.SamePlace run' ∨ run.ordinal = run'.ordinal ∧ run.attempt < run'.attempt

end Run

/-- A run that is placed when it is shifted has made one more attempt, or is where it was. -/
theorem Shift.placed_cases {now : Instant} {job : String} {p p' : Position} {d : Deed κ}
    (h : Shift now job p p' d) (hplaced : p'.IsPlaced) :
    p.attempt < p'.attempt ∨ p' = { p with ranAt := some now } := by
  cases h with
  | start => exact .inl (Nat.lt_succ_self _)
  | confirm => exact .inr rfl
  | stop => exact .inl (Nat.lt_succ_self _)
  | release => cases hplaced.1
  | settle => cases hplaced.1
  | forget => exact .inl (Nat.lt_succ_self _)
  | adopt => exact .inl (Nat.lt_succ_self _)
  | expel => exact .inl (Nat.lt_succ_self _)

variable [Quantity κ] {now : Instant} {s s' : Scheduler κ} {d : Deed κ}

open Scheduler Registry

/-- Where an executor comes from: it was there under the same revision with the same terms, or it
has just been added or redefined. -/
theorem Does.executor_cases (hdoes : Does now s d s') (hsound : s.registry.Sound)
    {e' : Executor κ} (he' : e' ∈ s'.registry.executors) :
    (∃ e ∈ s.registry.executors, e.Alike e') ∨
      (∃ e r, d = .addExecutor e ∧ s.registry.addExecutor e now = .ok r ∧ e.Alike e') ∨
      ∃ e old, d = .changeExecutor e ∧ Quantity.isValid e.capacity = true ∧
        s.registry.executor? e.id = some old ∧ e' = redefine old e := by
  cases hdoes with
  | aside hsame =>
    rw [hsame.registry] at he'
    exact .inl ⟨e', he', .refl e'⟩
  | addJob hr =>
    obtain ⟨-, -, rfl⟩ := of_addJob hr
    exact .inl ⟨e', he', .refl e'⟩
  | changeJob hr =>
    obtain ⟨_, -, -, rfl⟩ := of_changeJob hr
    exact .inl ⟨e', he', .refl e'⟩
  | @addExecutor e _ hr =>
    obtain ⟨-, -, rfl⟩ := of_addExecutor hr
    rcases List.mem_append.1 he' with he' | he'
    · exact .inl ⟨e', he', .refl e'⟩
    · obtain rfl := List.mem_singleton.1 he'
      exact .inr (.inl ⟨e, _, rfl, hr, rfl, rfl, rfl⟩)
  | removeExecutor hr =>
    obtain rfl := of_removeExecutor hr
    exact .inl ⟨e', (List.mem_filter.1 he').1, .refl e'⟩
  | @changeExecutor e _ _ hr =>
    obtain ⟨old, hcap, hold, -, rfl⟩ := of_changeExecutor hr
    obtain ⟨e₀, he₀, rfl⟩ := List.mem_map.1 he'
    split
    · rename_i hid
      have hsame := hsound.executor?_eq he₀
      rw [hid, hold] at hsame
      obtain rfl := Option.some.inj hsame
      exact .inr (.inr ⟨e, old, rfl, hcap, hold, rfl⟩)
    · exact .inl ⟨e₀, he₀, .refl e₀⟩
  | keepAlive hr =>
    obtain rfl := of_keepAlive hr
    obtain ⟨e₀, he₀, rfl⟩ := List.mem_map.1 he'
    refine .inl ⟨e₀, he₀, ?_⟩
    split <;> exact ⟨rfl, rfl, rfl⟩
  | settle =>
    simp only [report_registry, put_registry, noteStop_registry] at he'
    exact .inl ⟨e', he', .refl e'⟩
  | finish =>
    simp only [drop_registry, noteStop_registry] at he'
    exact .inl ⟨e', he', .refl e'⟩
  | _ => exact .inl ⟨e', he', .refl e'⟩

/-- **A placed run was placed so before, or has made one more attempt.** -/
theorem Does.placed_cases (hdoes : Does now s d s') (hsound : s.registry.Sound) {id : String}
    {run' : Run κ} (hrun' : s'.registry.runs.get? id = some run') (hplaced : run'.IsPlaced) :
    ∃ run, s.registry.runs.get? id = some run ∧ run'.ComesFrom run := by
  have hposition := position?_of_get? hrun'
  -- a run whose position was there before is where it was
  have hsame : s.registry.position? id = some run'.position →
      ∃ run, s.registry.runs.get? id = some run ∧ run'.ComesFrom run := by
    intro hold
    obtain ⟨run, hrun, hp⟩ := get?_of_position? hold
    exact ⟨run, hrun, .inl ⟨⟨congrArg Position.ordinal hp, congrArg Position.attempt hp⟩,
      congrArg Position.executor hp, congrArg Position.revision hp,
      congrArg Position.stopping hp⟩⟩
  cases hdoes.shifts hsound with
  | same _ positions =>
    rw [positions] at hposition
    exact hsame hposition
  | fresh job _ positions =>
    rw [positions] at hposition
    split at hposition
    · -- a run that has just been added is on no executor
      have hfresh : none = run'.executor := congrArg Position.executor (Option.some.inj hposition)
      exact absurd hplaced.1 (by simp [← hfresh])
    · exact hsame hposition
  | gone job p positions =>
    rw [positions] at hposition
    split at hposition
    · cases hposition
    · exact hsame hposition
  | shifted job p p' call? positions old shift =>
    rw [positions] at hposition
    split at hposition
    · rename_i hid
      subst hid
      obtain ⟨run, hrun, rfl⟩ := get?_of_position? old
      obtain rfl := Option.some.inj hposition
      refine ⟨run, hrun, ?_⟩
      rcases shift.placed_cases hplaced with hlater | hp
      · exact .inr ⟨shift.ordinal_eq.symm, hlater⟩
      · exact .inl ⟨⟨(congrArg Position.ordinal hp).symm, (congrArg Position.attempt hp).symm⟩,
          (congrArg Position.executor hp).symm, (congrArg Position.revision hp).symm,
          (congrArg Position.stopping hp).symm⟩
    · exact hsame hposition

namespace Advance

variable {a : Advance κ}

/-- The executor is as it was, or as the request that the advance takes in has just made it. -/
inductive Offers (s : Scheduler κ) (a : Advance κ) (e' : Executor κ) : Prop
  | kept (e : Executor κ) (mem : e ∈ s.registry.executors) (alike : e.Alike e')
  | added (ticket : Ticket) (e : Executor κ) (heard looked shown : Instant) (r : Registry κ)
      (request : a = .turn (.request ticket (.addExecutor e)) heard looked shown)
      (ok : s.registry.addExecutor e heard = .ok r) (alike : e.Alike e')
  | changed (ticket : Ticket) (e old : Executor κ) (heard looked shown : Instant)
      (request : a = .turn (.request ticket (.changeExecutor e)) heard looked shown)
      (valid : Quantity.isValid e.capacity = true)
      (old_eq : s.registry.executor? e.id = some old) (alike : (redefine old e).Alike e')

theorem Offers.trans {e e' : Executor κ} (h : a.Offers s e) (halike : e.Alike e') :
    a.Offers s e' := by
  cases h with
  | kept e mem alike => exact .kept e mem (alike.trans halike)
  | added ticket e heard looked shown r request ok alike =>
    exact .added ticket e heard looked shown r request ok (alike.trans halike)
  | changed ticket e old heard looked shown request valid old_eq alike =>
    exact .changed ticket e old heard looked shown request valid old_eq (alike.trans halike)

/-- **Where an executor comes from**, in one advance. -/
theorem offers (hsound : s.registry.Sound) {e' : Executor κ}
    (he' : e' ∈ (a.apply s).registry.executors) : a.Offers s e' := by
  -- an executor is added or redefined by the request that the advance takes in, at once
  have hgrants : a.GrantsIntake (fun now s' d =>
      (∀ e, d = .addExecutor e → s' = s ∧ ∃ ticket looked shown,
        a = .turn (.request ticket (.addExecutor e)) now looked shown) ∧
      ∀ e, d = .changeExecutor e → s' = s ∧ ∃ ticket looked shown,
        a = .turn (.request ticket (.changeExecutor e)) now looked shown) s := by
    refine ⟨fun _ d hd => ?_, fun _ _ => by simp, fun c d _ hd => ?_, ?_, ?_, by simp, by simp,
      by simp⟩
    · cases d <;> simp_all [Deed.IsRoutine]
    · obtain ⟨run, -, -, hreturns⟩ := effect?_eq_some_iff.1 hd
      cases hreturns <;> simp
    · rintro ticket e heard looked shown rfl
      refine ⟨?_, by simp⟩
      rintro e' ⟨⟩
      exact ⟨rfl, ticket, looked, shown, rfl⟩
    · rintro ticket e heard looked shown rfl
      refine ⟨by simp, ?_⟩
      rintro e' ⟨⟩
      exact ⟨rfl, ticket, looked, shown, rfl⟩
  have hoffers : ∀ e' ∈ (a.takeIn s).registry.executors, a.Offers s e' := by
    refine (takeIn_course hsound.run_key hgrants).invariant_of_sound
      (I := fun s' => ∀ e' ∈ s'.registry.executors, a.Offers s e') hsound
      (fun e he => .kept e he (.refl e)) ?_
    intro now s₁ d s₂ hsound₁ hI hQ hdoes e' he'
    rcases hdoes.executor_cases hsound₁ he' with ⟨e, he, halike⟩ | ⟨e, r, rfl, hadd, halike⟩ |
      ⟨e, old, rfl, hvalid, hold, rfl⟩
    · exact (hI e he).trans halike
    · obtain ⟨rfl, ticket, looked, shown, ha⟩ := hQ.1 e rfl
      exact .added ticket e now looked shown r ha hadd halike
    · obtain ⟨rfl, ticket, looked, shown, ha⟩ := hQ.2 e rfl
      exact .changed ticket e old now looked shown ha hvalid hold (.refl _)
  rw [apply_executors] at he'
  exact hoffers e' he'

/-- **A run keeps its executor and its revision** while it is placed and makes no other attempt. -/
theorem placed_eq (hsound : s.registry.Sound) {id : String} {run run' : Run κ}
    (hrun : s.registry.runs.get? id = some run)
    (hrun' : (a.apply s).registry.runs.get? id = some run') (hplaced : run'.IsPlaced)
    (hsame : run.SameAttempt run') : run.SamePlace run' := by
  have hcourse := Advance.course hsound.run_key (a.grants_all s)
  have hkept : s.registry.Continues (a.apply s).registry ∧
      ∀ run', (a.apply s).registry.runs.get? id = some run' → run'.IsPlaced →
        run.SameAttempt run' → run.SamePlace run' := by
    refine hcourse.invariant_of_sound (I := fun s' => s.registry.Continues s'.registry ∧
      ∀ run', s'.registry.runs.get? id = some run' → run'.IsPlaced →
        run.SameAttempt run' → run.SamePlace run') hsound ?_ ?_
    · refine ⟨⟨Nat.le_refl _, fun _ m hm => .inl ⟨m, hm, rfl, Nat.le_refl _⟩⟩, ?_⟩
      rintro run' hrun' - -
      obtain rfl : run = run' := by simpa [hrun] using hrun'
      exact .refl run
    · rintro now s₁ d s₂ hsound₁ ⟨hcontinues, hI⟩ - hdoes
      refine ⟨(hdoes.remarks hsound₁).continues hcontinues, fun run₂ hrun₂ hplaced hsame => ?_⟩
      obtain ⟨run₁, hrun₁, hplace | ⟨hordinal, hlater⟩⟩ :=
        hdoes.placed_cases hsound₁ hrun₂ hplaced
      · refine (hI run₁ hrun₁ ?_ ?_).trans hplace
        · exact ⟨by rw [hplace.executor]; exact hplaced.1, hplace.stopping.trans hplaced.2⟩
        · exact ⟨hsame.ordinal.trans hplace.ordinal.symm,
            hsame.attempt.trans hplace.attempt.symm⟩
      · -- attempts only rise, so no later one has the number that the run had at first
        exfalso
        rcases hcontinues.runs id _ (mark?_of_get? hrun₁) with ⟨m, hm, -, hle⟩ | hnew
        · rw [mark?_of_get? hrun, Option.some.injEq] at hm
          obtain rfl := hm
          have hattempt := hsame.attempt
          simp only [Run.mark] at hle
          omega
        · have hlt := hsound.ordinal_lt hrun
          have := hsame.ordinal
          simp only [Run.mark] at hnew
          omega
  exact hkept.2 run' hrun' hplaced hsame

end Advance

end Dispatch
