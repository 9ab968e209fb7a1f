import Dispatch.Proofs.History.Course
import Dispatch.Proofs.Plan.Decision
import Dispatch.Proofs.Registry.Sound

/-!
# Reached registries are sound

Every deed keeps `Registry.Sound`, so every session that is reached has a sound registry
(`ReachedBy.sound`).  What the planner decides may then be read off the tables
(`plan_start_pending`).
-/

namespace Dispatch

open Scheduler

variable {κ : Type} [Quantity κ] {now : Instant} {s s' : Scheduler κ} {d : Deed κ}

theorem Does.sound (hdoes : Does now s d s') (h : s.registry.Sound) : s'.registry.Sound := by
  cases hdoes with
  | aside hsame => rw [hsame.registry]; exact h
  | callBack => exact h
  | limit => exact h
  | say => exact h
  | addJob hr => exact h.addJob hr
  | changeJob hr => exact h.changeJob hr
  | addExecutor hr => exact h.addExecutor hr
  | removeExecutor hr => exact h.removeExecutor hr
  | changeExecutor hr => exact h.changeExecutor hr
  | keepAlive hr => exact h.keepAlive hr
  | start he hdef hrun hplan =>
    have hpending := (plan_start_pending h hrun hplan).1
    have hfree := (Run.isPending_iff.1 hpending).2
    exact h.modifyRun hrun (h.job_key hdef) (h.job_cost hdef) (.start hfree _ _ _) rfl
  | confirm hrun hst hs => exact h.moveRun hrun rfl ((h.shaped hrun).confirm hst hs now) rfl
  | mark hrun hst => exact h.moveRun hrun rfl ((h.shaped hrun).mark hst) rfl
  | discard hrun => exact h.removeRun hrun
  | stop hrun hst he => exact h.moveRun hrun rfl (.stop (by simp [he]) _ now) rfl
  | release hrun hst hs => exact h.moveRun hrun rfl ((h.shaped hrun).release hst now) rfl
  | settle hrun hst hrm =>
    obtain ⟨definition, hdef⟩ := h.job_of_run hrun
    simp only [report_registry, put_registry, noteStop_registry, hdef, Option.getD_some]
    exact h.modifyRun hrun (h.job_key hdef) (h.job_cost hdef)
      ((h.shaped hrun).settle hst hrm definition) rfl
  | finish hrun =>
    simp only [drop_registry, noteStop_registry]
    exact h.removeRun hrun
  | forget hrun hst he =>
    exact h.moveRun hrun rfl (((h.shaped hrun).release hst now).count _) rfl
  | adopt he hrun hst hexec hadmits =>
    exact h.moveRun hrun rfl ((h.shaped hrun).adopt hst _ _ now) rfl
  | expel he hrun hst hexec => exact h.moveRun hrun rfl (.stop rfl _ now) rfl

/-- What every deed keeps in a sound registry, a chain of deeds keeps. -/
theorem Course.invariant_of_sound {Q : Instant → Scheduler κ → Deed κ → Prop}
    {I : Scheduler κ → Prop} (h : Course Q s s') (hsound : s.registry.Sound) (hs : I s)
    (step : ∀ now s d s', s.registry.Sound → I s → Q now s d → Does now s d s' → I s') : I s' :=
  (h.invariant (I := fun s => s.registry.Sound ∧ I s) ⟨hsound, hs⟩
    fun _ _ _ _ hI hQ hdoes => ⟨hdoes.sound hI.1, step _ _ _ _ hI.1 hI.2 hQ hdoes⟩).2

/-- Any advance is granted all its deeds, when nothing is asked of them. -/
theorem Advance.grants_all (s : Scheduler κ) (a : Advance κ) :
    a.Grants (fun _ _ _ => True) s := by
  refine ⟨⟨?_, ?_, ?_, ?_, ?_, ?_, ?_, ?_⟩, ?_, ?_⟩ <;> intros <;> trivial

theorem Advance.apply_sound {a : Advance κ} (h : s.registry.Sound) :
    (a.apply s).registry.Sound :=
  (Advance.course h.run_key (a.grants_all s)).invariant h
    fun _ _ _ _ hsound _ hdoes => hdoes.sound hsound

theorem Advance.takeIn_sound {a : Advance κ} (h : s.registry.Sound) :
    (a.takeIn s).registry.Sound :=
  (Advance.takeIn_course h.run_key (a.grants_all s).toGrantsIntake).invariant h
    fun _ _ _ _ hsound _ hdoes => hdoes.sound hsound

/-- **Every session that is reached has a sound registry.** -/
theorem ReachedBy.sound {P : Scheduler κ → Advance κ → Prop} {config : Config κ}
    {session : Session κ} (h : ReachedBy P config session) : session.scheduler.registry.Sound := by
  refine h.invariant (I := fun session => session.scheduler.registry.Sound)
    (fun _ _ => Registry.Sound.empty) ?_
  rintro session a _ - hsound - ⟨-, -, rest, -, rfl⟩
  exact Advance.apply_sound hsound

end Dispatch
