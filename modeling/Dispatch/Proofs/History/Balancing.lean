import Dispatch.Proofs.History.Rebalance
import Dispatch.Proofs.History.Throttle
import Dispatch.Proofs.Overflow
import Dispatch.Proofs.Plan.Moves

/-!
# When a running job is stopped for balance

What `plan_balance_iff` says of a sound registry holds along every history, since registries are
sound there, and the difference that is worth a move is never set anew after the settings were
checked.

* `ReachedBy.balanceAt_valid` : the difference that is worth a move is a valid cost;
* `load_balance_iff` : **a job is stopped for balance exactly when all jobs run and one of them has
  a feasible move**, as long as the gain of every possible move is a number;
* `load_balance_undefined` : two executors that are equally full, so that nothing is gained by a
  move, but so full that the gain is no number.  A job is stopped for balance there.
-/

namespace Dispatch

open Scheduler Registry

variable {κ : Type} [Quantity κ]

theorem Config.isValid_balanceAt {config : Config κ} (h : config.validate = .ok ()) :
    Quantity.isValid config.balanceAt = true := by
  by_contra hinvalid
  simp only [Bool.not_eq_true] at hinvalid
  simp only [validate, hinvalid] at h
  split at h <;> simp at h

/-- The difference that is worth a move is never set anew. -/
theorem Course.balanceAt_eq {Q : Instant → Scheduler κ → Deed κ → Prop} {s s' : Scheduler κ}
    (h : Course Q s s') : s'.config.balanceAt = s.config.balanceAt :=
  h.invariant (I := fun s' => s'.config.balanceAt = s.config.balanceAt) rfl
    fun _ _ _ _ hsame _ hdoes => (congrArg Config.balanceAt hdoes.config_eq).trans hsame

/-- **The difference that is worth a move is a valid cost** in every session. -/
theorem ReachedBy.balanceAt_valid {P : Scheduler κ → Advance κ → Prop} {config : Config κ}
    {session : Session κ} (h : ReachedBy P config session) :
    Quantity.isValid session.scheduler.config.balanceAt = true := by
  refine h.invariant (I := fun session =>
    Quantity.isValid session.scheduler.config.balanceAt = true)
    (fun _ hvalid => Config.isValid_balanceAt hvalid) ?_
  rintro session a _ hreach hvalid - ⟨-, -, rest, -, rfl⟩
  have hcourse := Advance.course hreach.sound.run_key (a.grants_all session.scheduler)
  exact (congrArg Quantity.isValid hcourse.balanceAt_eq).trans hvalid

/-- **When a job is stopped for balance**, in a state that is reached, also when an event has just
been taken in, and in which no run has to stop and no more runs are started than may be: when
balancing is on, all jobs run, and one of them can be moved so that the gain is worth it or is no
number.  It is stopped for such a move.  If the gain of every possible move is a number, the move is
a feasible one. -/
theorem load_balance_iff [Quantity.Lawful κ] {config : Config κ} {session : Session κ}
    (h : Reachable config session) (a : Advance κ) (now : Instant)
    (hstay : ∀ run ∈ (a.takeIn session.scheduler).registry.allRuns,
      run.mustStop? (a.takeIn session.scheduler).registry
        (Snapshot.ofRegistry (a.takeIn session.scheduler).registry now
          (a.takeIn session.scheduler).config.aliveWindow)
        (a.takeIn session.scheduler).config
        (unrunCost (a.takeIn session.scheduler).registry.allRuns) now = none)
    (hwithin : overCap? (a.takeIn session.scheduler).registry.allRuns
      (a.takeIn session.scheduler).registry.startedCount (a.takeIn session.scheduler).config =
        none) :
    let r := (a.takeIn session.scheduler).registry
    let settings := (a.takeIn session.scheduler).config
    ((∃ job id, (plan r settings now).action = some (.stop job (.loadBalance id))) ↔
      0 < settings.balanceAt ∧ (∀ run ∈ r.allRuns, run.state = .running) ∧
        ∃ run here target, r.Movable settings now run here target ∧
          (r.Worthwhile settings here target ∨ ¬ Quantity.IsNumber (r.gain here target))) ∧
    (∀ job id, (plan r settings now).action = some (.stop job (.loadBalance id)) →
      ∃ run here target, run.job.id = job ∧ target.id = id ∧
        r.Movable settings now run here target ∧
        (r.Worthwhile settings here target ∨ ¬ Quantity.IsNumber (r.gain here target))) ∧
    ((∀ run here target, r.Movable settings now run here target →
        Quantity.IsNumber (r.gain here target)) →
      ((∃ job id, (plan r settings now).action = some (.stop job (.loadBalance id))) ↔
        0 < settings.balanceAt ∧ (∀ run ∈ r.allRuns, run.state = .running) ∧
          ∃ run here target, r.Feasible settings now run here target) ∧
      ∀ job id, (plan r settings now).action = some (.stop job (.loadBalance id)) →
        ∃ run here target, run.job.id = job ∧ target.id = id ∧
          r.Feasible settings now run here target) := by
  intro r settings
  have hsound : r.Sound := Advance.takeIn_sound h.sound
  have hvalid : Quantity.isValid settings.balanceAt = true := by
    have hcourse := Advance.takeIn_course h.sound.run_key (a.grants_all _).toGrantsIntake
    exact (congrArg Quantity.isValid hcourse.balanceAt_eq).trans h.balanceAt_valid
  obtain ⟨hiff, hnamed⟩ := plan_balance_iff hsound hvalid hstay hwithin
  refine ⟨hiff, hnamed, fun hnumber => ?_⟩
  have hfeasible : ∀ run here target, r.Movable settings now run here target ∧
      (r.Worthwhile settings here target ∨ ¬ Quantity.IsNumber (r.gain here target)) ↔
        r.Feasible settings now run here target := by
    intro run here target
    constructor
    · rintro ⟨hmovable, hgain⟩
      exact ⟨hmovable, hgain.resolve_right (not_not_intro (hnumber run here target hmovable))⟩
    · exact fun hmove => ⟨hmove.toMovable, .inl hmove.toWorthwhile⟩
  simp only [hfeasible] at hiff hnamed
  exact ⟨hiff, hnamed⟩

/-- A job of cost 5 is alone when an empty executor joins: it is to be moved there. -/
theorem load_balance_iff_lone :
    ∃ run here target, run.job.id = "j" ∧ target.id = "B" ∧
      ((Advance.turn joined 0 0 0).takeIn lone.scheduler).registry.Feasible
        ((Advance.turn joined 0 0 0).takeIn lone.scheduler).config 0 run here target := by
  have hreach : Reachable (evensOut 1) lone :=
    Session.play_reachedBy (fun _ _ _ => trivial) (.start 0 (by decide +kernel))
      (Option.some_get _).symm
  obtain ⟨-, -, hexact⟩ := load_balance_iff hreach (.turn joined 0 0 0) 0 (by decide +kernel)
    (by decide +kernel)
  exact (hexact fun _ _ _ _ => le_refl _).2 "j" "B" (by decide +kernel)

/-- Settings under which a difference of one is worth a move. -/
def evensOutOne : Config Overflowing := { balanceAt := 1, runningOnStart := true }

/-- Two executors of the smallest capacity above zero have a job each, of a cost that is within the
tolerance.  The first one runs. -/
def brimful : Session Overflowing :=
  (Session.play (fun _ _ => true) { scheduler := { config := evensOutOne }, now := 0 }
    [(0, .request (.addExecutor { id := "A", capacity := .finite (1 / 2 ^ 1074) })),
      (0, .request (.addExecutor { id := "B", capacity := .finite (1 / 2 ^ 1074) })),
      (0, .request (.addJob { id := "j1", cost := .finite (1 / 10000000000) })),
      (0, .request (.addJob { id := "j2", cost := .finite (1 / 10000000000) })),
      (0, .answer 0 (.ok ()))]).get (by decide +kernel)

/-- The start call of the second one comes back, and what is left under way then. -/
def secondRuns : Advance Overflowing × List (Call Overflowing) :=
  ((Cue.answer 0 (.ok ())).advance? brimful 0).get (by decide +kernel)

/-- No run has to stop and no move is feasible, but a job is stopped for balance. -/
theorem load_balance_undefined :
    let r := (secondRuns.1.takeIn brimful.scheduler).registry
    let settings := (secondRuns.1.takeIn brimful.scheduler).config
    Reachable evensOutOne brimful ∧
      brimful.Step secondRuns.1 (brimful.after secondRuns.1 secondRuns.2) ∧
      (∀ run ∈ r.allRuns, run.mustStop? r (Snapshot.ofRegistry r 0 settings.aliveWindow)
        settings (unrunCost r.allRuns) 0 = none) ∧
      overCap? r.allRuns r.startedCount settings = none ∧
      (plan r settings 0).action = some (.stop "j1" (.loadBalance "B")) ∧
      ¬ ∃ run here target, r.Feasible settings 0 run here target := by
  intro r settings
  have hgain : ∀ here ∈ r.executors, ∀ target ∈ r.executors,
      ¬ settings.balanceAt / here.capacity ≤ r.gain here target + Quantity.tolerance := by
    decide +kernel
  refine ⟨?_, ⟨by decide +kernel, by decide +kernel, secondRuns.2, ?_, rfl⟩, by decide +kernel,
    by decide +kernel, by decide +kernel, ?_⟩
  · exact Session.play_reachedBy (fun _ _ _ => trivial) (.start 0 (by decide +kernel))
      (Option.some_get _).symm
  · exact Cue.takes (Option.some_get _).symm
  · rintro ⟨run, here, target, hmove⟩
    exact hgain here hmove.offered target hmove.target_offered hmove.at_here

end Dispatch
