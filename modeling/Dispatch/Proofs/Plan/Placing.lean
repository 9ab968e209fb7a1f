import Dispatch.Proofs.Plan.Balance
import Mathlib.Data.Int.ConditionallyCompleteOrder
import Mathlib.Data.Prod.Lex
import Mathlib.Order.WithBot

/-!
# Where pending runs are placed

A plan that stops nothing starts a run, or there is nothing to be started.  Which run it starts, and
where, is said here in terms of the tables alone: of the entries whose executors are alive and not
paused, of what the runs counted there cost and of how many are starting.

* `Registry.HasRoom`, `Registry.HasRoomAt` : an executor, or one entry of it, has room for a cost;
* `Registry.Eligible` : an entry may take a run of a cost now;
* `Registry.LessBusy` : fewer runs are starting at an entry, or as many and less of it is in use;
* `Registry.IsQueue` : the pending runs in the order in which they wait;
* `Registry.Measured.place_eq_on`, `Registry.Measured.place_eq_noRoom` : what is to be done with a
  pending run;
* `placement_optimal` : **a plan that stops nothing starts the first run that can be started, on the
  least busy entry that is eligible**, and says for which runs before it there is no room.
-/

namespace Dispatch

variable {κ : Type}

/-- What a pending run waits by: when it was stopped, which for a run that never was is before all
instants, then its place in the order of addition. -/
def Run.waitKey (run : Run κ) : WithBot Instant ×ₗ Nat :=
  toLex (run.stoppedAt.elim ⊥ WithBot.some, run.ordinal)

theorem Run.waitsBefore_iff {a b : Run κ} : a.waitsBefore b = true ↔ a.waitKey ≤ b.waitKey := by
  rw [waitKey, waitKey, Prod.Lex.toLex_le_toLex, waitsBefore]
  cases a.stoppedAt with
  | none => cases b.stoppedAt <;> simp [WithBot.bot_lt_coe]
  | some s => cases b.stoppedAt <;> simp [WithBot.coe_lt_coe]

/-- There is no room for a run when its cost exceeds what is left everywhere. -/
theorem place_eq_noRoom_iff [Quantity κ] {snapshot : Snapshot κ} {config : Config κ}
    {started : Nat} {now : Instant} {cost : κ} :
    place snapshot config started now cost = .noRoom ↔
      ∀ c ∈ snapshot, c.exceededBy cost = true := by
  have hroomy : (snapshot.filter (!·.exceededBy cost)).isEmpty = true ↔
      ∀ c ∈ snapshot, c.exceededBy cost = true := by
    simp [List.isEmpty_iff, List.filter_eq_nil_iff]
  rw [← hroomy]
  simp only [place]
  split
  · rename_i hnone
    simp [hnone]
  · rename_i hsome
    simp only [hsome]
    repeat' split
    all_goals simp

/-- What stands before and after a number in the list of all of them. -/
theorem mem_of_finRange_split {n : Nat} {i : Fin n} {before after : List (Fin n)}
    (h : List.finRange n = before ++ i :: after) :
    (∀ j < i, j ∈ before) ∧ ∀ j > i, j ∈ after := by
  have hsorted : (before ++ i :: after).Pairwise (· < ·) := h ▸ List.pairwise_lt_finRange n
  obtain ⟨-, hrest, hbefore⟩ := List.pairwise_append.1 hsorted
  have hafter := (List.pairwise_cons.1 hrest).1
  have hmem : ∀ j, j ∈ before ∨ j = i ∨ j ∈ after := fun j => by
    have hj := h ▸ List.mem_finRange j
    simpa using hj
  refine ⟨fun j hj => ?_, fun j hj => ?_⟩
  · rcases hmem j with hj' | rfl | hj'
    · exact hj'
    · exact absurd hj (lt_irrefl _)
    · exact absurd hj (hafter j hj').asymm
  · rcases hmem j with hj' | rfl | hj'
    · exact absurd hj (hbefore j hj' i List.mem_cons_self).asymm
    · exact absurd hj (lt_irrefl _)
    · exact hj'

namespace Capacity

variable [Quantity κ] {c a b : Capacity κ} {cost : κ}

/-- The capacity is valid and the load not negative. -/
structure Measured (c : Capacity κ) : Prop where
  capacity : Quantity.isValid c.capacity = true
  load : 0 ≤ c.load

variable [Quantity.Lawful κ]

/-- There is room for a cost when it does not exceed what is left, and both are numbers. -/
theorem fits_iff : cost ≤ c.spare + Quantity.tolerance ↔
    c.exceededBy cost = false ∧ Quantity.IsNumber c.spare ∧ Quantity.IsNumber cost := by
  have hexceeded : c.exceededBy cost = false ↔ ¬ c.spare + Quantity.tolerance < cost :=
    decide_eq_false_iff_not
  rw [hexceeded]
  constructor
  · intro hle
    obtain ⟨hcost, hsum⟩ := Quantity.Lawful.isNumber_of_le hle
    exact ⟨fun hlt => (Quantity.Lawful.lt_iff.1 hlt).2.2 hle,
      Quantity.Lawful.isNumber_add_tolerance.1 hsum, hcost⟩
  · rintro ⟨hnot, hspare, hcost⟩
    exact (Quantity.not_lt_iff (Quantity.Lawful.isNumber_add_tolerance.2 hspare) hcost).1 hnot

namespace Measured

theorem capacity_pos (h : c.Measured) : ¬ c.capacity ≤ 0 ↔ 0 < c.capacity :=
  Quantity.not_le_iff (.of_isValid h.capacity) Quantity.Lawful.isNumber_zero

theorem isNumber_spare (h : c.Measured) : Quantity.IsNumber c.spare :=
  Quantity.Lawful.isNumber_sub h.capacity h.load

theorem isNumber_usedRatio (h : c.Measured) : Quantity.IsNumber c.usedRatio := by
  unfold usedRatio
  split
  · exact Quantity.Lawful.isNumber_one
  · rename_i hcap
    exact Quantity.Lawful.isNumber_div h.capacity (h.capacity_pos.1 hcap) h.load

/-- Whether a cost exceeds what is left. -/
theorem exceededBy_iff (h : c.Measured) (hcost : Quantity.isValid cost = true) :
    c.exceededBy cost = false ↔ cost ≤ c.spare + Quantity.tolerance := by
  rw [fits_iff]
  exact (and_iff_left ⟨h.isNumber_spare, .of_isValid hcost⟩).symm

/-- Which of two executors is the busier one. -/
theorem noBusierThan_iff (ha : a.Measured) (hb : b.Measured) : a.noBusierThan b = true ↔
    ¬ (b.startingCount < a.startingCount ∨
      b.startingCount = a.startingCount ∧ b.usedRatio < a.usedRatio) := by
  rw [Capacity.noBusierThan_iff, not_or, not_and,
    Quantity.not_lt_iff hb.isNumber_usedRatio ha.isNumber_usedRatio]
  constructor
  · rintro (hlt | ⟨heq, hle⟩)
    · exact ⟨by omega, fun heq => by omega⟩
    · exact ⟨by omega, fun _ => hle⟩
  · rintro ⟨hnot, hle⟩
    by_cases heq : b.startingCount = a.startingCount
    · exact .inr ⟨heq.symm, hle heq⟩
    · exact .inl (by omega)

end Measured

end Capacity

namespace Registry

/-- The pending runs, in the order in which they wait. -/
structure IsQueue (r : Registry κ) (queue : List (Run κ)) : Prop where
  perm : queue.Perm (r.allRuns.filter (·.isPending))
  sorted : queue.Pairwise (·.waitKey ≤ ·.waitKey)

theorem isQueue_waitingLine (r : Registry κ) : r.IsQueue (waitingLine r.allRuns) := by
  refine ⟨lineUp_perm _ _, ?_⟩
  have htrans : ∀ a b c : Run κ, a.waitsBefore b = true → b.waitsBefore c = true →
      a.waitsBefore c = true := by
    simp only [Run.waitsBefore_iff]
    exact fun _ _ _ => le_trans
  have htotal : ∀ a b : Run κ, a.waitsBefore b = true ∨ b.waitsBefore a = true := by
    simp only [Run.waitsBefore_iff]
    exact fun _ _ => le_total _ _
  exact (lineUp_pairwise htrans htotal _).imp Run.waitsBefore_iff.1

variable [Quantity κ]

/-- What is left of the capacity of an executor. -/
def spare (r : Registry κ) (e : Executor κ) : κ := e.capacity - r.load e

/-- The part of its capacity that is in use; an executor without capacity counts as full. -/
def usedPart (r : Registry κ) (e : Executor κ) : κ :=
  if e.capacity ≤ 0 then 1 else r.load e / e.capacity

/-- An executor is alive and not paused, and has room for a job of the given cost. -/
structure HasRoom (r : Registry κ) (config : Config κ) (now : Instant) (cost : κ)
    (e : Executor κ) : Prop where
  unpaused : e.paused = false
  alive : e.isAlive now config.aliveWindow = true
  room : cost ≤ r.spare e + Quantity.tolerance

instance (r : Registry κ) (config : Config κ) (now : Instant) (cost : κ) (e : Executor κ) :
    Decidable (r.HasRoom config now cost e) :=
  decidable_of_iff (e.paused = false ∧ e.isAlive now config.aliveWindow = true ∧
    cost ≤ r.spare e + Quantity.tolerance) ⟨fun ⟨h, h', h''⟩ => ⟨h, h', h''⟩,
      fun ⟨h, h', h''⟩ => ⟨h, h', h''⟩⟩

/-- A cost and what is left of an executor are numbers, so that one is at most the other or not. -/
def Comparable (r : Registry κ) (cost : κ) (e : Executor κ) : Prop :=
  Quantity.IsNumber (r.spare e) ∧ Quantity.IsNumber cost

/-- Costs and capacities are finite and not negative. -/
structure Measured (r : Registry κ) : Prop where
  costs : ∀ run ∈ r.allRuns, Quantity.isValid run.job.cost = true
  capacities : ∀ e ∈ r.executors, Quantity.isValid e.capacity = true

section Measured

variable [Quantity.Lawful κ] {r : Registry κ} {config : Config κ} {now : Instant} {cost : κ}
  {e : Executor κ}

/-- There is room for a cost when it does not exceed what is left, and both are numbers. -/
theorem fits_iff :
    cost ≤ r.spare e + Quantity.tolerance ↔
      (Capacity.ofExecutor r e).exceededBy cost = false ∧ r.Comparable cost e :=
  Capacity.fits_iff (c := Capacity.ofExecutor r e)

variable (h : r.Measured)

include h

/-- What is counted at an entry can be compared. -/
theorem Measured.holding (he : e ∈ r.executors) {runs : List (Run κ)} (hruns : runs ⊆ r.allRuns) :
    (Capacity.holding e runs).Measured := by
  refine ⟨h.capacities e he, Quantity.sum_nonneg fun x hx => ?_⟩
  obtain ⟨run, hrun, rfl⟩ := List.mem_map.1 hx
  exact h.costs run (hruns hrun)

theorem Measured.ofExecutor (he : e ∈ r.executors) : (Capacity.ofExecutor r e).Measured :=
  h.holding he fun _ hrun => (mem_carriedBy.1 hrun).1

theorem Measured.capacity_pos (he : e ∈ r.executors) : ¬ e.capacity ≤ 0 ↔ 0 < e.capacity :=
  (h.ofExecutor he).capacity_pos

theorem Measured.comparable (he : e ∈ r.executors) (hcost : Quantity.isValid cost = true) :
    r.Comparable cost e :=
  ⟨(h.ofExecutor he).isNumber_spare, .of_isValid hcost⟩

/-- Whether a cost exceeds what is left on an executor. -/
theorem Measured.exceededBy_iff (he : e ∈ r.executors) (hcost : Quantity.isValid cost = true) :
    (Capacity.ofExecutor r e).exceededBy cost = false ↔
      cost ≤ r.spare e + Quantity.tolerance :=
  (h.ofExecutor he).exceededBy_iff hcost

end Measured

/-! ### Entries -/

section Entries

variable (r : Registry κ) (config : Config κ) (now : Instant) (cost : κ)

/-- The cost of the runs that are counted at an entry. -/
def loadAt (i : r.Entry) : κ :=
  Quantity.sum ((r.carriedAt now config.aliveWindow i).map (·.job.cost))

/-- How many of these runs are starting. -/
def startsAt (i : r.Entry) : Nat :=
  (r.carriedAt now config.aliveWindow i).countP (·.isStarting)

/-- What is left of the capacity of an entry. -/
def spareAt (i : r.Entry) : κ := (r.executors.get i).capacity - r.loadAt config now i

/-- The part of its capacity that is in use; an entry without capacity counts as full. -/
def usedPartAt (i : r.Entry) : κ :=
  if (r.executors.get i).capacity ≤ 0 then 1
  else r.loadAt config now i / (r.executors.get i).capacity

/-- The executor of an entry is alive and not paused, and there is room for a job of the given
cost. -/
structure HasRoomAt (i : r.Entry) : Prop where
  unpaused : (r.executors.get i).paused = false
  alive : (r.executors.get i).isAlive now config.aliveWindow = true
  room : cost ≤ r.spareAt config now i + Quantity.tolerance

instance (i : r.Entry) : Decidable (r.HasRoomAt config now cost i) :=
  decidable_of_iff ((r.executors.get i).paused = false ∧
    (r.executors.get i).isAlive now config.aliveWindow = true ∧
    cost ≤ r.spareAt config now i + Quantity.tolerance) ⟨fun ⟨h, h', h''⟩ => ⟨h, h', h''⟩,
      fun ⟨h, h', h''⟩ => ⟨h, h', h''⟩⟩

/-- An entry may take a pending run of the given cost now. -/
structure Eligible (i : r.Entry) : Prop extends r.HasRoomAt config now cost i where
  few : r.startsAt config now i < config.simultaneousStarts
  /-- When more than one run may be starting, each start is long enough ago. -/
  spaced : config.simultaneousStarts ≤ 1 ∨ ∀ run ∈ r.carriedAt now config.aliveWindow i,
    run.ranAt = none → ∀ t, run.startedAt = some t → config.startGap ≤ now.since t
  free : config.maxJobs = 0 ∨ r.startedCount < config.maxJobs

/-- Fewer runs are starting at the entry than at the other one, or as many, and a smaller part of
its capacity is in use. -/
def LessBusy (i j : r.Entry) : Prop :=
  r.startsAt config now i < r.startsAt config now j ∨
    r.startsAt config now i = r.startsAt config now j ∧
      r.usedPartAt config now i < r.usedPartAt config now j

/-- What is offered at an entry. -/
def offerAt (i : r.Entry) : Capacity κ :=
  Capacity.holding (r.executors.get i) (r.carriedAt now config.aliveWindow i)

/-- Whether the planner takes an entry into account for a run of the given cost. -/
def isOpenTo (i : r.Entry) : Bool :=
  (r.offerAt config now i).mayStart config now && !(r.offerAt config now i).exceededBy cost &&
    (r.executors.get i).isUsable now config.aliveWindow

theorem ofRegistry_open :
    ((Snapshot.ofRegistry r now config.aliveWindow).filter (!·.exceededBy cost)).filter
      (·.mayStart config now) =
        ((List.finRange _).filter (r.isOpenTo config now cost)).map (r.offerAt config now) := by
  rw [Snapshot.ofRegistry_eq_entries, List.filter_filter, List.filter_map, List.filter_filter]
  rfl

variable {r config now cost}

theorem startingCount_offerAt (i : r.Entry) :
    (r.offerAt config now i).startingCount = r.startsAt config now i :=
  startingCount_holding fun _ hrun => (of_mem_carriedAt hrun).2

variable [Quantity.Lawful κ] (h : r.Measured)

include h

theorem Measured.offerAt (i : r.Entry) : (r.offerAt config now i).Measured :=
  h.holding (List.get_mem _ _) fun _ hrun => (of_mem_carriedAt hrun).1

/-- Which of two entries is the busier one. -/
theorem Measured.noBusierThan_iff (i j : r.Entry) :
    (r.offerAt config now i).noBusierThan (r.offerAt config now j) = true ↔
      ¬ r.LessBusy config now j i := by
  rw [(h.offerAt i).noBusierThan_iff (h.offerAt j), startingCount_offerAt, startingCount_offerAt]
  rfl

theorem Measured.hasRoomAt_iff (hcost : Quantity.isValid cost = true) (i : r.Entry) :
    r.HasRoomAt config now cost i ↔ (r.executors.get i).isUsable now config.aliveWindow = true ∧
      (r.offerAt config now i).exceededBy cost = false := by
  rw [(h.offerAt i).exceededBy_iff hcost, Executor.isUsable_iff]
  exact ⟨fun ⟨hpaused, halive, hroom⟩ => ⟨⟨hpaused, halive⟩, hroom⟩,
    fun ⟨⟨hpaused, halive⟩, hroom⟩ => ⟨hpaused, halive, hroom⟩⟩

/-- An entry is eligible when the planner takes it into account and the job cap is not reached. -/
theorem Measured.eligible_iff (hcost : Quantity.isValid cost = true) (i : r.Entry) :
    r.Eligible config now cost i ↔ config.capReached r.startedCount = false ∧
      r.isOpenTo config now cost i = true := by
  have hstarted : ∀ run ∈ r.carriedAt now config.aliveWindow i, run.startedAt.isSome = true :=
    fun _ hrun => (of_mem_carriedAt hrun).2
  have hstart : (r.offerAt config now i).mayStart config now = true ↔ _ := mayStart_holding hstarted
  have hopen : r.isOpenTo config now cost i = true ↔
      (r.offerAt config now i).mayStart config now = true ∧ r.HasRoomAt config now cost i := by
    rw [h.hasRoomAt_iff hcost, isOpenTo]
    simp only [Bool.and_eq_true, Bool.not_eq_true']
    tauto
  rw [Config.capReached_eq_false_iff, hopen]
  constructor
  · rintro ⟨hroom, hfew, hspaced, hfree⟩
    exact ⟨hfree, hstart.2 ⟨hfew, hspaced⟩, hroom⟩
  · rintro ⟨hfree, hmay, hroom⟩
    obtain ⟨hfew, hspaced⟩ := hstart.1 hmay
    exact ⟨hroom, hfew, hspaced, hfree⟩

/-- **Where a run is placed**: at the first of the least busy entries that are eligible. -/
theorem Measured.place_eq_on (hcost : Quantity.isValid cost = true) {executor : String}
    (hplace : place (Snapshot.ofRegistry r now config.aliveWindow) config r.startedCount now cost =
      .on executor) :
    ∃ i : r.Entry, (r.executors.get i).id = executor ∧ r.Eligible config now cost i ∧
      (∀ j < i, r.Eligible config now cost j → r.LessBusy config now i j) ∧
      ∀ j > i, r.Eligible config now cost j → ¬ r.LessBusy config now j i := by
  obtain ⟨hfree, c, rfl, hpick⟩ := place_eq_on_iff.1 hplace
  rw [ofRegistry_open] at hpick
  have htotal : ∀ a ∈ ((List.finRange _).filter (r.isOpenTo config now cost)).map
      (r.offerAt config now), ∀ b ∈ ((List.finRange _).filter (r.isOpenTo config now cost)).map
      (r.offerAt config now), a.noBusierThan b = true ∨ b.noBusierThan a = true := by
    intro a ha b hb
    obtain ⟨i, -, rfl⟩ := List.mem_map.1 ha
    obtain ⟨j, -, rfl⟩ := List.mem_map.1 hb
    exact Capacity.noBusierThan_total (h.offerAt i).isNumber_usedRatio
      (h.offerAt j).isNumber_usedRatio
  obtain ⟨before, i, after, hsplit, rfl, hopen, hbefore, hafter⟩ :=
    ((pick_eq_some_iff Capacity.noBusierThan_trans htotal).1 hpick).of_filter
  obtain ⟨hless, hgreater⟩ := mem_of_finRange_split hsplit
  refine ⟨i, rfl, (h.eligible_iff hcost i).2 ⟨hfree, hopen⟩, fun j hj heligible => ?_,
    fun j hj heligible => ?_⟩
  · have hbusy := hbefore j (hless j hj) ((h.eligible_iff hcost j).1 heligible).2
    rwa [← Bool.not_eq_true, h.noBusierThan_iff, not_not] at hbusy
  · have hbusy := hafter j (hgreater j hj) ((h.eligible_iff hcost j).1 heligible).2
    exact (h.noBusierThan_iff i j).1 hbusy

/-- A run is placed somewhere exactly when an entry is eligible. -/
theorem Measured.place_ne_on_iff (hcost : Quantity.isValid cost = true) :
    (∀ executor, place (Snapshot.ofRegistry r now config.aliveWindow) config r.startedCount now
      cost ≠ .on executor) ↔ ∀ i, ¬ r.Eligible config now cost i := by
  constructor
  · intro hnone i heligible
    obtain ⟨hfree, hopen⟩ := (h.eligible_iff hcost i).1 heligible
    simp only [isOpenTo, Bool.and_eq_true, Bool.not_eq_true'] at hopen
    obtain ⟨⟨hstart, hroom⟩, husable⟩ := hopen
    have hmem : r.offerAt config now i ∈ Snapshot.ofRegistry r now config.aliveWindow := by
      rw [Snapshot.ofRegistry_eq_entries]
      exact List.mem_map.2 ⟨i, List.mem_filter.2 ⟨List.mem_finRange i, husable⟩, rfl⟩
    obtain ⟨executor, hplace⟩ := exists_place_on_iff.2 ⟨hfree, _, hmem, hroom, hstart⟩
    exact hnone executor hplace
  · intro hnone executor hplace
    obtain ⟨i, -, heligible, -⟩ := h.place_eq_on hcost hplace
    exact hnone i heligible

/-- There is no room for a run when no usable entry has room for its cost. -/
theorem Measured.place_eq_noRoom (hcost : Quantity.isValid cost = true) :
    place (Snapshot.ofRegistry r now config.aliveWindow) config r.startedCount now cost =
      .noRoom ↔ ∀ i, ¬ r.HasRoomAt config now cost i := by
  rw [place_eq_noRoom_iff, Snapshot.ofRegistry_eq_entries]
  simp only [List.forall_mem_map, List.mem_filter, List.mem_finRange, true_and,
    h.hasRoomAt_iff hcost, not_and, Bool.not_eq_false]
  rfl

/-- The jobs of a part of the queue for which there is no room. -/
theorem Measured.roomless_eq {queue : List (Run κ)} (hqueue : ∀ run ∈ queue, run ∈ r.allRuns) :
    roomless (fun run => place (Snapshot.ofRegistry r now config.aliveWindow) config
      r.startedCount now run.job.cost) queue =
        (queue.filter fun run => ∀ i, ¬ r.HasRoomAt config now run.job.cost i).map
          (·.job.id) := by
  rw [roomless]
  congr 1
  refine List.filter_congr fun run hrun => decide_eq_decide.2 ?_
  exact h.place_eq_noRoom (h.costs run (hqueue run hrun))

end Entries

end Registry

/-- **Placement is sound, work-conserving and optimal.**  A plan that stops nothing looks at the
pending runs in the order in which they wait.

* A start is of the first one for which an entry is eligible.  It goes to the least busy of the
  eligible entries, the first one added of those that are equally busy.  No bound run has to stop.
* Without a start, no entry is eligible for any pending run.

In both cases the plan lists the jobs, in order, of those passed by for which there is no room.

Each executor has one entry, of which all is taken that the executor carries, unless two entries
have one id. -/
theorem placement_optimal [Quantity κ] [Quantity.Lawful κ] {r : Registry κ} (h : r.Measured)
    (config : Config κ) (now : Instant) : (∃ queue, r.IsQueue queue ∧
      (∀ job executor, (plan r config now).action = some (.start job executor) →
        (∀ run ∈ r.allRuns, run.mustStop? r
          (Snapshot.ofRegistry r now config.aliveWindow) config (unrunCost r.allRuns) now =
            none) ∧
        ∃ ahead run behind, ∃ i : r.Entry,
          queue = ahead ++ run :: behind ∧ run.job.id = job ∧ (r.executors.get i).id = executor ∧
          r.Eligible config now run.job.cost i ∧
          (∀ j < i, r.Eligible config now run.job.cost j → r.LessBusy config now i j) ∧
          (∀ j > i, r.Eligible config now run.job.cost j → ¬ r.LessBusy config now j i) ∧
          (∀ run' ∈ ahead, ∀ j, ¬ r.Eligible config now run'.job.cost j) ∧
          (plan r config now).unplaceable = (ahead.filter fun run' =>
            ∀ j, ¬ r.HasRoomAt config now run'.job.cost j).map (·.job.id)) ∧
      ((plan r config now).action = none →
        (∀ run ∈ queue, ∀ j, ¬ r.Eligible config now run.job.cost j) ∧
        (plan r config now).unplaceable = (queue.filter fun run =>
          ∀ j, ¬ r.HasRoomAt config now run.job.cost j).map (·.job.id))) ∧
    ((r.executors.map (·.id)).Nodup → ∀ i : r.Entry,
      r.carriedAt now config.aliveWindow i = r.carriedBy (r.executors.get i).id) := by
  have hall : ∀ run ∈ waitingLine r.allRuns, run ∈ r.allRuns := fun run hrun =>
    (mem_waitingLine.1 hrun).1
  refine ⟨⟨waitingLine r.allRuns, r.isQueue_waitingLine, ?_, ?_⟩,
    fun hids => Registry.carriedAt_eq_carriedBy hids⟩
  · intro job executor hstart
    obtain ⟨hnone, ahead, run, behind, hline, hid, hon, hpassed, hplan⟩ := plan_eq_of_start hstart
    rw [hline, List.forall_mem_append, List.forall_mem_cons] at hall
    obtain ⟨hahead, hrun, -⟩ := hall
    obtain ⟨i, hi, heligible, hbefore, hafter⟩ := h.place_eq_on (h.costs run hrun) hon
    refine ⟨(plannedStop?_eq_none_iff.1 hnone).1, ahead, run, behind, i, hline, hid, hi, heligible,
      hbefore, hafter, fun run' hrun' => ?_, ?_⟩
    · exact (h.place_ne_on_iff (h.costs run' (hahead run' hrun'))).1 (hpassed run' hrun')
    · rw [hplan]
      exact h.roomless_eq hahead
  · intro hidle
    refine ⟨fun run hrun => ?_, ?_⟩
    · exact (h.place_ne_on_iff (h.costs run (hall run hrun))).1 ((plan_idle.1 hidle).2 run hrun)
    · rw [plan_eq_of_idle hidle]
      exact h.roomless_eq hall

/-- One job is too dear, one was stopped before, one was never placed, and one runs on `B`; the
first of the executors is paused. -/
def fourRuns : Registry ℚ where
  jobs := { entries := [("big", { id := "big", cost := 5 }), ("old", { id := "old", cost := 1 }),
    ("new", { id := "new", cost := 1 }), ("on", { id := "on", cost := 1 })] }
  runs := { entries := [("big", { job := { id := "big", cost := 5 }, ordinal := 0 }),
    ("old", { job := { id := "old", cost := 1 }, stoppedAt := some 5, ordinal := 1 }),
    ("new", { job := { id := "new", cost := 1 }, ordinal := 2 }),
    ("on",
      { job := { id := "on", cost := 1 }
        executor := some "B"
        executorRevision := some 0
        startedAt := some 0
        ranAt := some 0
        ordinal := 3
        attempt := 1 })] }
  executors := [{ id := "A", capacity := 9, paused := true }, { id := "B", capacity := 2 },
    { id := "C", capacity := 2 }, { id := "D", capacity := 2 }]
  nextOrdinal := 4

theorem placement_optimal_fourRuns : fourRuns.Measured ∧
    (plan fourRuns ownerConfirms 10).action = some (.start "new" "C") ∧
    ∃ queue, fourRuns.IsQueue queue ∧ ∃ ahead run behind, ∃ i : fourRuns.Entry,
      queue = ahead ++ run :: behind ∧ run.job.id = "new" ∧ (fourRuns.executors.get i).id = "C" ∧
      fourRuns.Eligible ownerConfirms 10 run.job.cost i ∧
      (∀ j < i, fourRuns.Eligible ownerConfirms 10 run.job.cost j →
        fourRuns.LessBusy ownerConfirms 10 i j) ∧
      (∀ run' ∈ ahead, ∀ j, ¬ fourRuns.Eligible ownerConfirms 10 run'.job.cost j) ∧
      (ahead.filter fun run' => ∀ j, ¬ fourRuns.HasRoomAt ownerConfirms 10 run'.job.cost j).map
        (·.job.id) = ["big"] := by
  have hmeasured : fourRuns.Measured := ⟨by decide +kernel, by decide +kernel⟩
  have hplan : (plan fourRuns ownerConfirms 10).action = some (.start "new" "C") := by
    decide +kernel
  have hroomless : (plan fourRuns ownerConfirms 10).unplaceable = ["big"] := by decide +kernel
  obtain ⟨queue, hqueue, hstart, -⟩ := (placement_optimal hmeasured ownerConfirms 10).1
  obtain ⟨-, ahead, run, behind, i, hsplit, hid, hi, heligible, hbefore, -, hahead,
    hunplaceable⟩ := hstart "new" "C" hplan
  exact ⟨hmeasured, hplan, queue, hqueue, ahead, run, behind, i, hsplit, hid, hi, heligible,
    hbefore, hahead, hunplaceable.symm.trans hroomless⟩

/-- Two entries of one executor, which carries a job, and another job that waits. -/
def twoEntries : Registry ℚ where
  jobs := { entries := [("on", { id := "on", cost := 8 }), ("new", { id := "new", cost := 8 })] }
  runs := { entries := [
    ("on",
      { job := { id := "on", cost := 8 }
        executor := some "A"
        executorRevision := some 0
        startedAt := some 0
        ranAt := some 0
        ordinal := 0
        attempt := 1 }),
    ("new", { job := { id := "new", cost := 8 }, ordinal := 1 })] }
  executors := [{ id := "A", capacity := 10 }, { id := "A", capacity := 10 }]
  nextOrdinal := 2

/-- The running job is counted at the first entry only, so there is room at the second one. -/
example : (plan twoEntries ownerConfirms 10).action = some (.start "new" "A") := by
  decide +kernel

end Dispatch
