import Dispatch.Capacity
import Dispatch.Proofs.Numbers
import Dispatch.Proofs.Registry.Sound
import Mathlib.Algebra.BigOperators.Group.List.Basic
import Mathlib.Algebra.Order.BigOperators.Group.List
import Mathlib.Algebra.Order.Ring.Rat
import Mathlib.Data.List.Nodup
import Mathlib.Tactic.Linarith

/-!
# What the runs of a registry add up to

The load of an executor and the number of runs starting on it are sums of a weight over all runs.
When one run changes, such a sum changes by what that run weighs (`Registry.exists_rest`).

* `Registry.heldLoad` : the cost of the runs that were placed on an executor as it is defined now;
* `Registry.Fits` : no executor is defined with less capacity than it holds;
* `Registry.startsOn` : how many runs are starting on an executor.

A `Burden` is a weight that only a started run has, and that does not grow when the run is
confirmed.  Both sums above are of this kind.
-/

namespace Dispatch

variable {κ M : Type} {r : Registry κ} {id : String} {run : Run κ} {w : Run κ → M}

/-- Started on an executor and not being stopped. -/
def Run.isCarriedBy (run : Run κ) (executor : String) : Bool :=
  !run.stopping && run.isBoundTo executor && run.startedAt.isSome

namespace Registry

theorem carriedBy_eq (r : Registry κ) (executor : String) :
    r.carriedBy executor = r.allRuns.filter (·.isCarriedBy executor) := rfl

section Tally

variable [AddCommMonoid M]

/-- The sum of a weight over a list of runs. -/
def weigh (w : Run κ → M) (runs : List (Run κ)) : M := (runs.map w).sum

/-- The sum of a weight over all runs. -/
def tally (r : Registry κ) (w : Run κ → M) : M := weigh w r.allRuns

/-- What is left of a sum without the run of one job, and what the sum becomes when that run is
changed or dropped. -/
theorem exists_rest (hrun : r.runs.get? id = some run) (w : Run κ → M) :
    ∃ rest, r.tally w = rest + w run ∧
      (∀ f, (r.modifyRun id f).tally w = rest + w (f run)) ∧ (r.removeRun id).tally w = rest := by
  obtain ⟨before, after, hsplit, hmod, herase⟩ := Table.exists_split hrun
  refine ⟨(before.map w).sum + (after.map w).sum, ?_, fun f => ?_, ?_⟩
  · simp only [tally, weigh, allRuns, hsplit, List.map_append, List.map_cons, List.sum_append,
      List.sum_cons]
    rw [add_assoc, add_comm (w run)]
  · simp only [tally, weigh, allRuns, modifyRun, hmod, List.map_append, List.map_cons,
      List.sum_append, List.sum_cons]
    rw [add_assoc, add_comm (w (f run))]
  · simp [tally, weigh, allRuns, removeRun, herase]

theorem countP_eq_weigh (p : Run κ → Bool) (runs : List (Run κ)) :
    runs.countP p = weigh (fun run => if p run then 1 else 0) runs := by
  induction runs with
  | nil => rfl
  | cons run runs ih =>
    rw [List.countP_cons, ih, weigh, weigh, List.map_cons, List.sum_cons, Nat.add_comm]

/-- The sum over the runs that satisfy a condition. -/
theorem weigh_filter (p : Run κ → Bool) (w : Run κ → M) (runs : List (Run κ)) :
    weigh w (runs.filter p) = weigh (fun run => if p run then w run else 0) runs := by
  induction runs with
  | nil => rfl
  | cons run runs ih =>
    simp only [weigh, List.map_cons, List.sum_cons] at ih ⊢
    rw [List.filter_cons, ← ih]
    split
    · rw [List.map_cons, List.sum_cons]
    · rw [zero_add]

end Tally

/-! ### Lists of runs -/

section Carried

variable {executor : String} {f : Run κ → Run κ}

/-- A list of runs keeps all but the run that is changed. -/
theorem allRuns_modifyRun (hrun : r.runs.get? id = some run) :
    ∃ before after, r.allRuns = before ++ run :: after ∧
      ∀ f, (r.modifyRun id f).allRuns = before ++ f run :: after := by
  obtain ⟨before, after, hsplit, hmod, -⟩ := Table.exists_split hrun
  exact ⟨before, after, hsplit, hmod⟩

/-- What an executor carries is the same when the run changed is not among it before or after. -/
theorem carriedBy_modifyRun (hrun : r.runs.get? id = some run)
    (hbefore : run.isCarriedBy executor = false) (hafter : (f run).isCarriedBy executor = false) :
    (r.modifyRun id f).carriedBy executor = r.carriedBy executor := by
  obtain ⟨before, after, hsplit, hmod⟩ := allRuns_modifyRun hrun
  simp [carriedBy_eq, hmod, hsplit, hbefore, hafter]

/-- An executor loses the run that comes off it. -/
theorem carriedBy_split (hrun : r.runs.get? id = some run)
    (hbefore : run.isCarriedBy executor = true) (hafter : (f run).isCarriedBy executor = false) :
    ∃ before after, r.carriedBy executor = before ++ run :: after ∧
      (r.modifyRun id f).carriedBy executor = before ++ after := by
  obtain ⟨before, after, hsplit, hmod⟩ := allRuns_modifyRun hrun
  refine ⟨before.filter (·.isCarriedBy executor), after.filter (·.isCarriedBy executor), ?_, ?_⟩
  · simp [carriedBy_eq, hsplit, hbefore]
  · simp [carriedBy_eq, hmod, hafter]

/-- No more runs are started when the run changed is not started by it. -/
theorem startedCount_modifyRun_le (hrun : r.runs.get? id = some run)
    (hf : (f run).startedAt = none) : (r.modifyRun id f).startedCount ≤ r.startedCount := by
  obtain ⟨before, after, hsplit, hmod⟩ := allRuns_modifyRun hrun
  simp only [startedCount, hmod, hsplit, List.countP_append, List.countP_cons, hf]
  simp

/-- At most one more run is started when one run is changed. -/
theorem startedCount_modifyRun_le_succ (hrun : r.runs.get? id = some run) (f : Run κ → Run κ) :
    (r.modifyRun id f).startedCount ≤ r.startedCount + 1 := by
  obtain ⟨before, after, hsplit, hmod⟩ := allRuns_modifyRun hrun
  simp only [startedCount, hmod, hsplit, List.countP_append, List.countP_cons]
  split <;> split <;> omega

end Carried

end Registry

/-- A weight that only started runs have, and that does not grow when a run is confirmed. -/
structure Burden [Quantity κ] [AddCommMonoid M] [PartialOrder M] (w : Run κ → M) : Prop where
  nonneg : ∀ run, Quantity.isValid run.job.cost = true → 0 ≤ w run
  unstarted : ∀ run, run.startedAt = none → w run = 0
  confirm : ∀ run now, w (run.confirm now) ≤ w run

namespace Burden

variable [Quantity κ] [AddCommMonoid M] [PartialOrder M]

theorem addJob_eq (h : Burden w) (hsound : r.Sound) {r' : Registry κ} {job : Job κ}
    (hadd : r.addJob job = .ok r') : r'.tally w = r.tally w := by
  obtain ⟨-, hnew, rfl⟩ := Registry.of_addJob hadd
  have hnorun := hsound.get?_runs_eq_none hnew
  simp [Registry.tally, Registry.weigh, Registry.allRuns, Table.values_addNew hnorun, h.unstarted]

theorem changeJob_eq (h : Burden w) (hsound : r.Sound) {r' : Registry κ} {job : Job κ}
    (hchange : r.changeJob job = .ok r') : r'.tally w = r.tally w := by
  obtain ⟨old, -, hold, rfl⟩ := Registry.of_changeJob hchange
  obtain ⟨run, hrun⟩ := hsound.run_of_job hold
  obtain ⟨rest, htally, hmod, -⟩ := Registry.exists_rest hrun w
  rw [htally]
  refine (hmod _).trans (congrArg (rest + ·) ?_)
  split
  · rename_i hpending
    -- a pending run is not started, under either definition
    have hunstarted := (hsound.shaped hrun).unstarted_of_pending hpending
    rw [h.unstarted run hunstarted]
    exact h.unstarted _ hunstarted
  · rfl

/-- A run that was not started adds what it weighs then. -/
theorem commit_eq (h : Burden w) (hrun : r.runs.get? id = some run)
    (hunstarted : run.startedAt = none) (f : Run κ → Run κ) :
    (r.modifyRun id f).tally w = r.tally w + w (f run) := by
  obtain ⟨rest, htally, hmod, -⟩ := Registry.exists_rest hrun w
  rw [hmod, htally, h.unstarted run hunstarted, add_zero]

variable [IsOrderedAddMonoid M]

omit [Quantity κ] in
/-- Less in place of one run is less in all. -/
theorem modifyRun_le (hrun : r.runs.get? id = some run) {f : Run κ → Run κ}
    (hle : w (f run) ≤ w run) : (r.modifyRun id f).tally w ≤ r.tally w := by
  obtain ⟨rest, htally, hmod, -⟩ := Registry.exists_rest hrun w
  rw [htally, hmod]
  exact add_le_add_right hle rest

theorem unstarted_le (h : Burden w) (hsound : r.Sound) (hrun : r.runs.get? id = some run)
    {f : Run κ → Run κ} (hf : (f run).startedAt = none) :
    (r.modifyRun id f).tally w ≤ r.tally w := by
  refine modifyRun_le hrun ?_
  rw [h.unstarted _ hf]
  exact h.nonneg run (hsound.run_cost hrun)

theorem removeRun_le (h : Burden w) (hsound : r.Sound) (hrun : r.runs.get? id = some run) :
    (r.removeRun id).tally w ≤ r.tally w := by
  obtain ⟨rest, htally, -, hremove⟩ := Registry.exists_rest hrun w
  rw [htally, hremove]
  exact le_add_of_nonneg_right (h.nonneg run (hsound.run_cost hrun))

end Burden

namespace Registry

/-- How many runs are starting on an executor. -/
def startsOn (r : Registry κ) (executor : String) : Nat :=
  (r.carriedBy executor).countP (·.isStarting)

/-- What a run counts for among those starting on an executor. -/
def startShare (executor : String) (run : Run κ) : Nat :=
  if run.isStarting && (!run.stopping && run.isBoundTo executor && run.startedAt.isSome) then 1
  else 0

theorem startsOn_eq (r : Registry κ) (executor : String) :
    r.startsOn executor = r.tally (startShare executor) := by
  rw [startsOn, carriedBy, List.countP_filter, countP_eq_weigh]
  rfl

theorem startShare_burden [Quantity κ] (executor : String) :
    Burden (startShare executor : Run κ → Nat) where
  nonneg _ _ := Nat.zero_le _
  unstarted run h := by simp [startShare, h]
  confirm run now := by simp [startShare, Run.confirm, Run.isStarting]

variable [Quantity κ]

/-- The cost of the runs that were placed on an executor as it is defined now. -/
def heldLoad (r : Registry κ) (e : Executor κ) : κ :=
  Quantity.sum (((r.carriedBy e.id).filter
    (·.executorRevision == some e.revision)).map (·.job.cost))

/-- The cost of all runs that an executor carries. -/
def load (r : Registry κ) (e : Executor κ) : κ :=
  Quantity.sum ((r.carriedBy e.id).map (·.job.cost))

/-- No executor is defined with less capacity than it holds. -/
def Fits (r : Registry κ) : Prop :=
  ∀ e ∈ r.executors, r.heldLoad e ≤ e.capacity + Quantity.tolerance

omit [Quantity κ] in
theorem mem_carriedBy {executor : String} :
    run ∈ r.carriedBy executor ↔ run ∈ r.allRuns ∧ run.stopping = false ∧
      run.executor = some executor ∧ run.startedAt.isSome = true := by
  simp [carriedBy, Run.isBoundTo, and_assoc]

/-- The runs held are all that is carried, when each was placed under the present definition. -/
theorem heldLoad_eq_load {e : Executor κ}
    (h : ∀ run ∈ r.carriedBy e.id, run.executorRevision = some e.revision) :
    r.heldLoad e = r.load e := by
  have hall : (r.carriedBy e.id).filter (·.executorRevision == some e.revision) =
      r.carriedBy e.id := List.filter_eq_self.2 fun run hrun => by simp [h run hrun]
  rw [heldLoad, load, hall]

theorem Sound.executor?_eq {e : Executor κ} (h : r.Sound) (he : e ∈ r.executors) :
    r.executor? e.id = some e := by
  cases hfind : r.executor? e.id with
  | none => exact absurd rfl (executor?_eq_none_iff.1 hfind e he)
  | some e' =>
    obtain ⟨he', hid⟩ := mem_of_executor? hfind
    rw [List.inj_on_of_nodup_map h.executors he' he hid]

end Registry

/-! ### Exact loads -/

theorem Quantity.sum_map (w : Run ℚ → ℚ) (runs : List (Run ℚ)) :
    Quantity.sum (runs.map w) = Registry.weigh w runs := by
  rw [Quantity.sum, Registry.weigh, List.sum_eq_foldl]

theorem Capacity.exceededBy_eq_false_iff {c : Capacity ℚ} {cost : ℚ} :
    c.exceededBy cost = false ↔ c.load + cost ≤ c.capacity + Quantity.tolerance := by
  have hexceeded : c.exceededBy cost =
      decide (c.capacity - c.load + Quantity.tolerance < cost) := rfl
  rw [hexceeded, decide_eq_false_iff_not, not_lt]
  constructor <;> intro h <;> linarith

namespace Registry

variable {r : Registry ℚ} {e : Executor ℚ}

/-- What a run takes of an executor as it is defined now. -/
def share (e : Executor ℚ) (run : Run ℚ) : ℚ :=
  if run.executorRevision == some e.revision &&
    (!run.stopping && run.isBoundTo e.id && run.startedAt.isSome) then run.job.cost
  else 0

theorem heldLoad_eq (r : Registry ℚ) (e : Executor ℚ) : r.heldLoad e = r.tally (share e) := by
  rw [heldLoad, carriedBy, List.filter_filter, Quantity.sum_map, weigh_filter]
  rfl

theorem share_burden (e : Executor ℚ) : Burden (share e) where
  nonneg run h := by
    rw [share]
    split
    · exact Quantity.isValid_iff.1 h
    · exact le_refl 0
  unstarted run h := by simp [share, h]
  confirm run now := by simp [share, Run.confirm, Run.isBoundTo]

/-- What an executor holds depends on its id and its revision only. -/
theorem heldLoad_congr {e e' : Executor ℚ} (hid : e.id = e'.id) (hrev : e.revision = e'.revision) :
    r.heldLoad e = r.heldLoad e' := by
  rw [heldLoad, heldLoad, hid, hrev]

/-- What is held is part of what is carried. -/
theorem heldLoad_le_load (hsound : r.Sound) : r.heldLoad e ≤ r.load e := by
  rw [heldLoad, load, Quantity.sum_map, Quantity.sum_map, weigh_filter]
  refine List.sum_le_sum fun run hrun => ?_
  split
  · exact le_refl _
  · have hget := hsound.get?_of_mem (mem_carriedBy.1 hrun).1
    exact Quantity.isValid_iff.1 (hsound.run_cost hget)

/-- A run put on an executor that has room for its cost leaves every executor with room. -/
theorem Fits.commit {id executor : String} {run run' : Run ℚ} (h : r.Fits) (hsound : r.Sound)
    (hrun : r.runs.get? id = some run) (hunstarted : run.startedAt = none)
    (he : r.executor? executor = some e) (hexec : run'.executor = some executor)
    (hroom : r.heldLoad e + run'.job.cost ≤ e.capacity + Quantity.tolerance) :
    (r.modifyRun id fun _ => run').Fits := by
  intro e' he'
  have hfits := h e' he'
  rw [heldLoad_eq] at hfits hroom ⊢
  rw [(share_burden e').commit_eq hrun hunstarted]
  by_cases hon : (run'.executorRevision == some e'.revision &&
      (!run'.stopping && run'.isBoundTo e'.id && run'.startedAt.isSome)) = true
  · -- only the executor that the run is put on takes a share of it
    have hid : executor = e'.id := by
      simp only [Bool.and_eq_true, Run.isBoundTo, hexec, beq_iff_eq, Option.some.injEq] at hon
      exact hon.2.1.2
    rw [hid, hsound.executor?_eq he'] at he
    obtain rfl := Option.some.inj he
    rw [share, if_pos hon]
    exact hroom
  · rw [share, if_neg hon, add_zero]
    exact hfits

end Registry

end Dispatch
