import Dispatch.Proofs.Plan.Placing

/-!
# Which running jobs are moved

A stop for balance is planned when a job can be moved to an executor of which so much more is left
that the move is worth while.  What is left is measured by a difference, and on floating point
numbers this difference need not be a number: it is none when both executors are overloaded beyond
all bounds.  The planner then takes the move to be worth while.

* `Registry.Movable`, `Registry.gain`, `Registry.Feasible` : a job can be moved, what is gained, and
  that this is enough;
* `mem_movesOf_iff_movable` : the moves that are considered;
* `plan_balance_iff` : **a stop for balance is planned exactly when all jobs run and one of them has
  a feasible move, or one of which the gain is no number**, and it names such a move.
-/

namespace Dispatch

variable {κ : Type} [Quantity κ]

namespace Registry

/-- A job runs on an executor that can be used, and another such executor has room for it. -/
structure Movable (r : Registry κ) (config : Config κ) (now : Instant) (run : Run κ)
    (here target : Executor κ) : Prop where
  registered : run ∈ r.allRuns
  running : run.ranAt.isSome = true
  staying : run.stopping = false
  bound : run.executor = some here.id
  offered : here ∈ r.executors
  unpaused : here.paused = false
  alive : here.isAlive now config.aliveWindow = true
  capacity : 0 < here.capacity
  target_offered : target ∈ r.executors
  target_other : target.id ≠ here.id
  target_capacity : 0 < target.capacity
  room : r.HasRoom config now run.job.cost target

/-- How much more of an executor is left than of another one. -/
def gain (r : Registry κ) (here target : Executor κ) : κ :=
  (1 - r.usedPart target) - (1 - r.usedPart here)

/-- The gain reaches what the difference in cost comes to on both executors. -/
structure Worthwhile (r : Registry κ) (config : Config κ) (here target : Executor κ) : Prop where
  at_here : config.balanceAt / here.capacity ≤ r.gain here target + Quantity.tolerance
  at_target : config.balanceAt / target.capacity ≤ r.gain here target + Quantity.tolerance

/-- A job can be moved, and it is worth while. -/
structure Feasible (r : Registry κ) (config : Config κ) (now : Instant) (run : Run κ)
    (here target : Executor κ) : Prop extends r.Movable config now run here target,
    r.Worthwhile config here target

end Registry

open Registry

/-- The entry of an executor in the snapshot, if it can be used. -/
theorem find_ofRegistry_iff {r : Registry κ} (h : (r.executors.map (·.id)).Nodup) {now : Instant}
    {window : Option Duration} {id : String} {c : Capacity κ} :
    (Snapshot.ofRegistry r now window).find id = some c ↔ ∃ e ∈ r.executors, e.paused = false ∧
      e.isAlive now window = true ∧ e.id = id ∧ c = Capacity.ofExecutor r e := by
  constructor
  · intro hfind
    obtain ⟨e, he, hpaused, halive, rfl⟩ :=
      (Snapshot.mem_ofRegistry h).1 (List.mem_of_find?_eq_some hfind)
    exact ⟨e, he, hpaused, halive, Snapshot.executor_of_find hfind, rfl⟩
  · rintro ⟨e, he, hpaused, halive, rfl, rfl⟩
    have hmem : Capacity.ofExecutor r e ∈ Snapshot.ofRegistry r now window :=
      (Snapshot.mem_ofRegistry h).2 ⟨e, he, hpaused, halive, rfl⟩
    cases hfind : (Snapshot.ofRegistry r now window).find e.id with
    | none => exact absurd (beq_self_eq_true e.id) (List.find?_eq_none.1 hfind _ hmem)
    | some c =>
      obtain ⟨e', he', -, -, rfl⟩ :=
        (Snapshot.mem_ofRegistry h).1 (List.mem_of_find?_eq_some hfind)
      have hid : e'.id = e.id := Snapshot.executor_of_find hfind
      rw [List.inj_on_of_nodup_map h he' he hid]

theorem Registry.Sound.measured {r : Registry κ} (h : r.Sound) : r.Measured :=
  ⟨fun _ hrun => h.run_cost (h.get?_of_mem hrun), h.capacity⟩

section Moves

variable [Quantity.Lawful κ] {r : Registry κ} {config : Config κ} {now : Instant} {run : Run κ}
  {here target : Executor κ}

/-- A move is taken to be worth while if it is, or if its gain is no number. -/
theorem not_lt_worthwhile_iff (h : r.Measured)
    (hbalance : Quantity.isValid config.balanceAt = true) (hhere : here ∈ r.executors)
    (hcap : 0 < here.capacity) (htarget : target ∈ r.executors) (hcap' : 0 < target.capacity) :
    ¬ r.gain here target + Quantity.tolerance < worthwhile config.balanceAt
        (Capacity.ofExecutor r here) (Capacity.ofExecutor r target) ↔
      r.Worthwhile config here target ∨ ¬ Quantity.IsNumber (r.gain here target) := by
  have hnonneg := Quantity.Lawful.nonneg_of_isValid hbalance
  have hleft : Quantity.IsNumber (config.balanceAt / here.capacity) :=
    Quantity.Lawful.isNumber_div (h.capacities here hhere) hcap hnonneg
  have hright : Quantity.IsNumber (config.balanceAt / target.capacity) :=
    Quantity.Lawful.isNumber_div (h.capacities target htarget) hcap' hnonneg
  show ¬ _ < Quantity.larger (config.balanceAt / here.capacity)
    (config.balanceAt / target.capacity) ↔ _
  by_cases hgain : Quantity.IsNumber (r.gain here target)
  · rw [Quantity.not_lt_iff (Quantity.Lawful.isNumber_add_tolerance.2 hgain)
      (Quantity.isNumber_larger hleft hright), Quantity.larger_le_iff hleft hright]
    exact ⟨fun ⟨h₁, h₂⟩ => .inl ⟨h₁, h₂⟩, fun hworth =>
      let ⟨h₁, h₂⟩ := hworth.resolve_right (not_not_intro hgain); ⟨h₁, h₂⟩⟩
  · have hsum : ¬ Quantity.IsNumber (r.gain here target + Quantity.tolerance) :=
      fun hsum => hgain (Quantity.Lawful.isNumber_add_tolerance.1 hsum)
    simp [Quantity.Lawful.lt_iff, hsum, hgain]

/-- **The moves that are considered.** -/
theorem mem_movesOf_iff_movable (h : r.Sound)
    (hbalance : Quantity.isValid config.balanceAt = true) (hrun : run ∈ r.allRuns)
    {move : Move κ} :
    move ∈ movesOf config.balanceAt (Snapshot.ofRegistry r now config.aliveWindow) run ↔
      ∃ here target, r.Movable config now run here target ∧
        (r.Worthwhile config here target ∨ ¬ Quantity.IsNumber (r.gain here target)) ∧
        move = ⟨run, target.id, r.gain here target⟩ := by
  have hmeasured := h.measured
  rw [mem_movesOf_iff]
  constructor
  · rintro ⟨hst, hran, current, hcurrent, hcap, other, hother, hmove⟩
    obtain ⟨id, hbound, hfind⟩ := Option.bind_eq_some_iff.1 hcurrent
    obtain ⟨here, hhere, hpaused, halive, rfl, rfl⟩ := (find_ofRegistry_iff h.executors).1 hfind
    obtain ⟨target, htarget, hopen, hlives, rfl⟩ :=
      (Snapshot.mem_ofRegistry h.executors).1 hother
    obtain ⟨hother, hcap', hroom, hgain, rfl⟩ := moveTo?_eq_some_iff.1 hmove
    have hpos := (hmeasured.capacity_pos hhere).1 hcap
    have hpos' := (hmeasured.capacity_pos htarget).1 hcap'
    have hfits := (hmeasured.exceededBy_iff htarget (h.run_cost (h.get?_of_mem hrun))).1 hroom
    exact ⟨here, target, ⟨hrun, hran, hst, hbound, hhere, hpaused, halive, hpos, htarget, hother,
      hpos', hopen, hlives, hfits⟩,
      (not_lt_worthwhile_iff hmeasured hbalance hhere hpos htarget hpos').1 hgain, rfl⟩
  · rintro ⟨here, target, hmovable, hworth, rfl⟩
    have hcurrent : run.executor.bind
        (Snapshot.ofRegistry r now config.aliveWindow).find = some (Capacity.ofExecutor r here) :=
      Option.bind_eq_some_iff.2 ⟨here.id, hmovable.bound, (find_ofRegistry_iff h.executors).2
        ⟨here, hmovable.offered, hmovable.unpaused, hmovable.alive, rfl, rfl⟩⟩
    have hother : Capacity.ofExecutor r target ∈
        Snapshot.ofRegistry r now config.aliveWindow :=
      (Snapshot.mem_ofRegistry h.executors).2
        ⟨target, hmovable.target_offered, hmovable.room.unpaused, hmovable.room.alive, rfl⟩
    refine ⟨hmovable.staying, hmovable.running, _, hcurrent,
      (hmeasured.capacity_pos hmovable.offered).2 hmovable.capacity, _, hother,
      moveTo?_eq_some_iff.2 ⟨hmovable.target_other,
        (hmeasured.capacity_pos hmovable.target_offered).2 hmovable.target_capacity, ?_, ?_, rfl⟩⟩
    · exact (hmeasured.exceededBy_iff hmovable.target_offered
        (h.run_cost (h.get?_of_mem hrun))).2 hmovable.room.room
    · exact (not_lt_worthwhile_iff hmeasured hbalance hmovable.offered hmovable.capacity
        hmovable.target_offered hmovable.target_capacity).2 hworth

omit [Quantity.Lawful κ] in
/-- Jobs that run are none that are on their way off. -/
theorem Registry.Sound.all_running_iff (h : r.Sound) :
    (∀ run ∈ r.allRuns, run.ranAt.isSome = true) ↔ ∀ run ∈ r.allRuns, run.state = .running := by
  refine forall₂_congr fun run hrun => ?_
  have hshaped := h.shaped (h.get?_of_mem hrun)
  cases hst : run.stopping with
  | true => simp [Run.state, hst, hshaped.unran_of_stopping hst]
  | false => cases hran : run.ranAt <;> simp [Run.state, hst, hran]; split <;> simp

/-- **When a stop for balance is planned**, in a sound registry in which no run has to stop and no
more runs are started than may be: when balancing is on, all jobs run, and one of them has a move
that is worth while or of which the gain is no number.  It is a stop for such a move. -/
theorem plan_balance_iff (h : r.Sound) (hbalance : Quantity.isValid config.balanceAt = true)
    (hstay : ∀ run ∈ r.allRuns, run.mustStop? r
      (Snapshot.ofRegistry r now config.aliveWindow) config (unrunCost r.allRuns) now = none)
    (hwithin : overCap? r.allRuns r.startedCount config = none) :
    ((∃ job id, (plan r config now).action = some (.stop job (.loadBalance id))) ↔
      0 < config.balanceAt ∧ (∀ run ∈ r.allRuns, run.state = .running) ∧
        ∃ run here target, r.Movable config now run here target ∧
          (r.Worthwhile config here target ∨ ¬ Quantity.IsNumber (r.gain here target))) ∧
    ∀ job id, (plan r config now).action = some (.stop job (.loadBalance id)) →
      ∃ run here target, run.job.id = job ∧ target.id = id ∧
        r.Movable config now run here target ∧
        (r.Worthwhile config here target ∨ ¬ Quantity.IsNumber (r.gain here target)) := by
  have hnumber : Quantity.IsNumber config.balanceAt := .of_isValid hbalance
  have hpositive : ¬ config.balanceAt ≤ 0 ↔ 0 < config.balanceAt :=
    Quantity.not_le_iff hnumber Quantity.Lawful.isNumber_zero
  have hnamed : ∀ job id, (plan r config now).action = some (.stop job (.loadBalance id)) →
      0 < config.balanceAt ∧ (∀ run ∈ r.allRuns, run.ranAt.isSome = true) ∧
        ∃ run here target, run.job.id = job ∧ target.id = id ∧
          r.Movable config now run here target ∧
          (r.Worthwhile config here target ∨ ¬ Quantity.IsNumber (r.gain here target)) := by
    intro job id hplan
    obtain ⟨hran, move, hmove, rfl, rfl⟩ :=
      (plannedStop?_balance_iff hstay hwithin).1 (plan_stop hplan)
    obtain ⟨hon, run, hrun, hmem⟩ := balanceMove?_mem hmove
    obtain ⟨here, target, hmovable, hworth, rfl⟩ :=
      (mem_movesOf_iff_movable h hbalance hrun).1 hmem
    exact ⟨hpositive.1 hon, hran, run, here, target, rfl, rfl, hmovable, hworth⟩
  refine ⟨⟨?_, ?_⟩, fun job id hplan => (hnamed job id hplan).2.2⟩
  · rintro ⟨job, id, hplan⟩
    obtain ⟨hon, hran, run, here, target, -, -, hmovable, hworth⟩ := hnamed job id hplan
    exact ⟨hon, h.all_running_iff.1 hran, run, here, target, hmovable, hworth⟩
  · rintro ⟨hon, hrunning, run, here, target, hmovable, hworth⟩
    have hmem := (mem_movesOf_iff_movable h hbalance hmovable.registered).2
      ⟨here, target, hmovable, hworth, rfl⟩
    obtain ⟨move, hmove⟩ := exists_balanceMove? (hpositive.2 hon) hmovable.registered hmem
    have hstop := (plannedStop?_balance_iff hstay hwithin).2
      ⟨h.all_running_iff.2 hrunning, move, hmove, rfl, rfl⟩
    exact ⟨_, _, by rw [plan_of_plannedStop? hstop]⟩

end Moves

end Dispatch
