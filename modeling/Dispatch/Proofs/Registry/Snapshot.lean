import Dispatch.Proofs.Registry.Counting
import Dispatch.Summary
import Mathlib.Data.List.Forall2
import Mathlib.Order.Bounds.Defs

/-!
# What is counted on executors

The snapshot and the summaries count the same runs in two ways.  The snapshot leaves out runs that
are being stopped, and those that run count as confirmed and all others as starting; a summary goes
by the state of each run and takes the cost of those that are started.  In a sound registry this
comes to the same, because of the four shapes of runs.

* `Registry.Agree` : an entry of the snapshot and a summary say the same;
* `Registry.Sound.consistent` : **the snapshot lists the executors that are shown to be alive and
  not paused, and says the same of them**, and every bound run is counted in one of three states.
-/

namespace Dispatch

variable {κ : Type}

/-! ### The states of the runs on an executor -/

namespace Run

variable {run : Run κ}

/-- The runs that count as starting in the snapshot are those in this state. -/
theorem starting_iff {executor : String} :
    (run.isCarriedBy executor && !run.isRunning) =
      (run.isBoundTo executor && run.state == .starting) := by
  cases hst : run.stopping <;> cases hran : run.ranAt <;> cases hstarted : run.startedAt <;>
    simp [isCarriedBy, isRunning, state, hst, hran, hstarted]

theorem isSome_startedAt (h : run.state = .starting) : run.startedAt.isSome = true := by
  unfold state at h
  repeat' split at h
  all_goals first | assumption | cases h

/-- A started run is not being stopped, so each one takes capacity of its executor. -/
theorem Shaped.isCarriedBy_eq (h : run.Shaped) (executor : String) :
    run.isCarriedBy executor = (run.isBoundTo executor && run.startedAt.isSome) := by
  cases hs : run.startedAt.isSome with
  | false => simp [isCarriedBy, hs]
  | true => simp [isCarriedBy, hs, (h.of_started hs).2.2]

/-- A run on an executor is not pending. -/
theorem Shaped.state_ne_pending (h : run.Shaped) (hbound : run.executor.isSome = true) :
    run.state ≠ .pending := by
  cases h with
  | pending he => simp [he] at hbound
  | starting _ _ hs hr _ hst => simp [state, hst, hr, hs]
  | running _ _ _ hr _ hst => simp [state, hst, hr]
  | stopping _ _ _ _ _ hst => simp [state, hst]

end Run

/-- Runs none of which is pending are starting, running or stopping. -/
theorem countP_states {runs : List (Run κ)} (h : ∀ run ∈ runs, run.state ≠ .pending) :
    runs.countP (·.state == .starting) + runs.countP (·.state == .running) +
      runs.countP (·.state == .stopping) = runs.length := by
  induction runs with
  | nil => rfl
  | cons run runs ih =>
    obtain ⟨hrun, hruns⟩ := List.forall_mem_cons.1 h
    have hrest := ih hruns
    simp only [List.countP_cons, List.length_cons]
    cases hstate : run.state with
    | pending => exact absurd hstate hrun
    | _ => simp; omega

namespace Registry

variable {r : Registry κ}

theorem filter_carriedBy (r : Registry κ) (executor : String) :
    (r.carriedBy executor).filter (!·.isRunning) =
      (r.runsOn executor).filter (·.state == .starting) := by
  rw [carriedBy_eq, runsOn, List.filter_filter, List.filter_filter]
  refine List.filter_congr fun run _ => ?_
  rw [Bool.and_comm, Run.starting_iff, Bool.and_comm]

/-- What takes capacity of an executor is what is started on it, in the same order. -/
theorem carriedBy_eq_started (hshaped : ∀ run ∈ r.allRuns, run.Shaped) (executor : String) :
    r.carriedBy executor = (r.runsOn executor).filter (·.startedAt.isSome) := by
  rw [carriedBy_eq, runsOn, List.filter_filter]
  refine List.filter_congr fun run hrun => ?_
  rw [(hshaped run hrun).isCarriedBy_eq, Bool.and_comm]

variable [Quantity κ]

/-- An entry of the snapshot and the summary of an executor say the same, and the entry says when
the last of the runs that are starting was started. -/
structure Agree (r : Registry κ) (c : Capacity κ) (s : ExecutorSummary κ) : Prop where
  executor : c.executor = s.id
  capacity : c.capacity = s.capacity
  load : c.load = s.load
  starting : c.startingCount = s.starting
  lastStart : ∀ t, c.lastStart = some t ↔
    IsGreatest {u | ∃ run ∈ r.runsOn s.id, run.state = .starting ∧ run.startedAt = some u} t
  noStart : c.lastStart = none ↔ ∀ run ∈ r.runsOn s.id, run.state ≠ .starting

/-- The snapshot and the summaries of a registry tell the same of its executors. -/
structure Consistent (r : Registry κ) (config : Config κ) (now : Instant) : Prop where
  /-- Every executor is listed once, in the order of addition. -/
  listed : (summaries r config now).map (·.id) = r.executors.map (·.id)
  distinct : ((summaries r config now).map (·.id)).Nodup
  /-- The snapshot lists those of them that are alive and not paused. -/
  offered : List.Forall₂ r.Agree (Snapshot.ofRegistry r now config.aliveWindow)
    ((summaries r config now).filter fun s => s.alive && !s.paused)
  /-- Both add up the costs in the order in which the jobs were added. -/
  ordered : (r.allRuns.map (·.ordinal)).Pairwise (· < ·)
  /-- The pass over all runs counts on each of them all that it carries. -/
  counted : Snapshot.ofRegistry r now config.aliveWindow =
    (r.executors.filter fun e => !e.paused && e.isAlive now config.aliveWindow).map
      (Capacity.ofExecutor r)
  /-- Every run on an executor is in one of the three states that are shown. -/
  bound : ∀ s ∈ summaries r config now,
    s.starting + s.running + s.stopping = (r.runsOn s.id).length

theorem lastStart_eq_some_iff {e : Executor κ} {t : Instant} :
    (Capacity.ofExecutor r e).lastStart = some t ↔
      IsGreatest {u | ∃ run ∈ r.runsOn e.id, run.state = .starting ∧ run.startedAt = some u} t := by
  have hmem : ∀ u, u ∈ ((r.runsOn e.id).filter (·.state == .starting)).filterMap (·.startedAt) ↔
      u ∈ {u | ∃ run ∈ r.runsOn e.id, run.state = .starting ∧ run.startedAt = some u} := by
    simp [and_assoc]
  show (((r.carriedBy e.id).filter (!·.isRunning)).filterMap (·.startedAt)).max? = some t ↔ _
  rw [filter_carriedBy, List.max?_eq_some_iff, hmem, IsGreatest, upperBounds]
  simp only [hmem]
  rfl

theorem lastStart_eq_none_iff {e : Executor κ} :
    (Capacity.ofExecutor r e).lastStart = none ↔
      ∀ run ∈ r.runsOn e.id, run.state ≠ .starting := by
  show (((r.carriedBy e.id).filter (!·.isRunning)).filterMap (·.startedAt)).max? = none ↔ _
  rw [List.max?_eq_none_iff, List.filterMap_eq_nil_iff, filter_carriedBy]
  constructor
  · intro hnone run hrun hstate
    have hunstarted := hnone run (List.mem_filter.2 ⟨hrun, by simp [hstate]⟩)
    have hstarted := Run.isSome_startedAt hstate
    simp [hunstarted] at hstarted
  · intro hnone run hrun
    obtain ⟨hon, hstate⟩ := List.mem_filter.1 hrun
    exact absurd (by simpa using hstate) (hnone run hon)

/-- An executor is told of alike. -/
theorem agree_of_shaped (hshaped : ∀ run ∈ r.allRuns, run.Shaped) (config : Config κ)
    (now : Instant) (e : Executor κ) :
    r.Agree (Capacity.ofExecutor r e) (e.summary r config now) where
  executor := rfl
  capacity := rfl
  load := by
    show Quantity.sum ((r.carriedBy e.id).map _) = _
    rw [carriedBy_eq_started hshaped]
    rfl
  starting := by
    show ((r.carriedBy e.id).filter (!·.isRunning)).length = _
    rw [filter_carriedBy, ← List.countP_eq_length_filter]
    rfl
  lastStart _ := lastStart_eq_some_iff
  noStart := lastStart_eq_none_iff

/-- **A sound registry is told of alike** by the snapshot and the summaries, at every instant. -/
theorem Sound.consistent (h : r.Sound) (config : Config κ) (now : Instant) :
    r.Consistent config now := by
  have hshaped : ∀ run ∈ r.allRuns, run.Shaped := fun run hrun => h.shaped (h.get?_of_mem hrun)
  have hlisted : (summaries r config now).map (·.id) = r.executors.map (·.id) := by
    simp [summaries, Executor.summary, Function.comp_def]
  have hcounted := Snapshot.ofRegistry_eq_executors h.executors now config.aliveWindow
  refine ⟨hlisted, by rw [hlisted]; exact h.executors, ?_, h.ordinals, hcounted, ?_⟩
  · have hshown : (summaries r config now).filter (fun s => s.alive && !s.paused) =
        (r.executors.filter (·.isUsable now config.aliveWindow)).map
          (·.summary r config now) := by
      rw [summaries, List.filter_map]
      congr 1
      exact List.filter_congr fun e _ => Bool.and_comm _ _
    rw [hshown, hcounted, List.forall₂_map_left_iff, List.forall₂_map_right_iff,
      List.forall₂_same]
    exact fun e _ => agree_of_shaped hshaped config now e
  · intro s hs
    obtain ⟨e, -, rfl⟩ := List.mem_map.1 hs
    refine countP_states fun run hrun => ?_
    obtain ⟨hall, hbound⟩ := List.mem_filter.1 hrun
    refine (hshaped run hall).state_ne_pending ?_
    simp [eq_of_beq (show (run.executor == some e.id) = true from hbound)]

end Registry

end Dispatch
