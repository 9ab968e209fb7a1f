import Dispatch.Proofs.Numbers
import Dispatch.Proofs.Plan.Limits
import Dispatch.Proofs.Selection
import Mathlib.Algebra.Order.Field.Basic
import Mathlib.Tactic.Ring

/-!
# Where a job goes that is stopped for balance

A stop for balance names a target that is less in use than the executor of the job.  The job is not
sent there: once its stop is over it is placed anew, and then its former executor is without the
cost of the job, so that it may be the one least in use.

* `mem_movesOf_iff`, `moveTo?_eq_some_iff` : the moves that are considered, of which
  `balanceMove?_mem` says that one is chosen, and `exists_balanceMove?` when;
* `balanceMove?_spec` : what the move says for the sake of which a job is stopped;
* `moveTo?_usedRatio_lt` : the target stays the less used one when the cost of the job is below the
  difference in cost that is worth a move;
* `place_returns_iff` : **a job comes back exactly when its former executor has room for it and is
  not outbid**;
* `ofRegistry_vacated` : what the executors offer once a running job has begun to stop.
-/

namespace Dispatch

section Moves

variable {κ : Type} [Quantity κ]

/-- An executor without a part of its load. -/
def Capacity.without (c : Capacity κ) (cost : κ) : Capacity κ := { c with load := c.load - cost }

theorem moveTo?_eq_some_iff {balanceAt : κ} {run : Run κ} {current other : Capacity κ}
    {move : Move κ} : moveTo? balanceAt run current other = some move ↔
      other.executor ≠ current.executor ∧ ¬ other.capacity ≤ 0 ∧
        other.exceededBy run.job.cost = false ∧
        ¬ other.spareRatio - current.spareRatio + Quantity.tolerance <
          worthwhile balanceAt current other ∧
        move = ⟨run, other.executor, other.spareRatio - current.spareRatio⟩ := by
  simp only [moveTo?]
  split
  · rename_i hother
    simp only [Bool.or_eq_true, beq_iff_eq, decide_eq_true_eq] at hother
    simp only [reduceCtorEq, false_iff]
    rintro ⟨hne, hcap, -⟩
    exact hother.elim hne hcap
  rename_i hother
  simp only [Bool.or_eq_true, beq_iff_eq, decide_eq_true_eq, not_or] at hother
  split
  · rename_i hroom
    simp [hroom]
  rename_i hroom
  split
  · rename_i hgain
    simp [hgain]
  · rename_i hgain
    simp [hother, hroom, hgain, eq_comm]

theorem moveTo?_eq_some {balanceAt : κ} {run : Run κ} {current other : Capacity κ} {move : Move κ}
    (h : moveTo? balanceAt run current other = some move) :
    other.executor ≠ current.executor ∧ ¬ other.capacity ≤ 0 ∧
      other.exceededBy run.job.cost = false ∧
      ¬ other.spareRatio - current.spareRatio + Quantity.tolerance <
        worthwhile balanceAt current other ∧ move.run = run := by
  obtain ⟨hne, hcap, hroom, hgain, rfl⟩ := moveTo?_eq_some_iff.1 h
  exact ⟨hne, hcap, hroom, hgain, rfl⟩

/-- The moves of a run that runs lead from its executor, where this can be used, to others. -/
theorem mem_movesOf_iff {balanceAt : κ} {snapshot : Snapshot κ} {run : Run κ} {move : Move κ} :
    move ∈ movesOf balanceAt snapshot run ↔ run.stopping = false ∧ run.ranAt.isSome = true ∧
      ∃ current, run.executor.bind snapshot.find = some current ∧ ¬ current.capacity ≤ 0 ∧
        ∃ other ∈ snapshot, moveTo? balanceAt run current other = some move := by
  unfold movesOf
  split
  · rename_i hrunning
    simp only [List.not_mem_nil, false_iff, not_and]
    intro hst hran
    cases hrun : run.ranAt <;> simp_all
  rename_i hrunning
  simp only [Bool.or_eq_true, not_or, Bool.not_eq_true] at hrunning
  obtain ⟨hst, hnone⟩ := hrunning
  have hran : run.ranAt.isSome = true := by
    cases hrun : run.ranAt <;> simp_all
  split
  · rename_i hcurrent
    simp [hcurrent]
  rename_i current hcurrent
  split
  · rename_i hcap
    simp [hcurrent, hcap]
  · rename_i hcap
    simp [hcurrent, hcap, hst, hran, List.mem_filterMap]

/-- The move that is chosen is among those considered. -/
theorem balanceMove?_mem {runs : List (Run κ)} {snapshot : Snapshot κ} {config : Config κ}
    {move : Move κ} (h : balanceMove? runs snapshot config = some move) :
    ¬ config.balanceAt ≤ 0 ∧ ∃ run ∈ runs, move ∈ movesOf config.balanceAt snapshot run := by
  unfold balanceMove? at h
  split at h
  · cases h
  · rename_i hon
    exact ⟨hon, List.mem_flatMap.1 (pick_mem h)⟩

/-- A move is chosen when balancing is on and one is considered. -/
theorem exists_balanceMove? {runs : List (Run κ)} {snapshot : Snapshot κ} {config : Config κ}
    {run : Run κ} {move : Move κ} (hon : ¬ config.balanceAt ≤ 0) (hrun : run ∈ runs)
    (hmove : move ∈ movesOf config.balanceAt snapshot run) :
    ∃ move, balanceMove? runs snapshot config = some move := by
  unfold balanceMove?
  rw [if_neg hon]
  exact pick_of_mem (List.mem_flatMap.2 ⟨run, hrun, hmove⟩)

/-- The job that is stopped runs on one executor of the snapshot and is worth moving to another. -/
theorem balanceMove?_spec {runs : List (Run κ)} {snapshot : Snapshot κ} {config : Config κ}
    {move : Move κ} (h : balanceMove? runs snapshot config = some move) :
    move.run ∈ runs ∧ move.run.stopping = false ∧ ∃ current ∈ snapshot, ∃ other ∈ snapshot,
      move.run.executor = some current.executor ∧ ¬ current.capacity ≤ 0 ∧
      moveTo? config.balanceAt move.run current other = some move := by
  obtain ⟨-, run, hrun, hmove⟩ := balanceMove?_mem h
  obtain ⟨hst, -, current, hcurrent, hcap, other, hother, hmove⟩ := mem_movesOf_iff.1 hmove
  obtain ⟨-, -, -, -, rfl⟩ := moveTo?_eq_some hmove
  obtain ⟨executor, hexec, hfind⟩ := Option.bind_eq_some_iff.1 hcurrent
  have hid : current.executor = executor := Snapshot.executor_of_find hfind
  refine ⟨hrun, hst, current, List.mem_of_find?_eq_some hfind, other, hother, ?_, hcap, hmove⟩
  rw [hexec, hid]

/-- What an executor offers depends on the runs that it carries. -/
theorem Capacity.ofExecutor_congr {r r' : Registry κ} {e : Executor κ}
    (h : r.carriedBy e.id = r'.carriedBy e.id) :
    Capacity.ofExecutor r e = Capacity.ofExecutor r' e := by
  simp only [Capacity.ofExecutor, h]

/-- No run is starting on an executor whose runs have all begun to run. -/
theorem Capacity.ofExecutor_of_ran {r : Registry κ} {e : Executor κ}
    (h : ∀ run ∈ r.carriedBy e.id, run.ranAt.isSome = true) :
    Capacity.ofExecutor r e = { executor := e.id, capacity := e.capacity, load := r.load e } := by
  have hnone : (r.carriedBy e.id).filter (!·.isRunning) = [] := by
    refine List.filter_eq_nil_iff.2 fun run hrun => ?_
    simp [Run.isRunning, h run hrun]
  simp only [Capacity.ofExecutor, Capacity.holding, hnone]
  rfl

end Moves

namespace Capacity

section Busy

variable {κ : Type} [Quantity κ] {a b : Capacity κ}

theorem noBusierThan_iff : a.noBusierThan b = true ↔ a.startingCount < b.startingCount ∨
    a.startingCount = b.startingCount ∧ a.usedRatio ≤ b.usedRatio := by
  simp [noBusierThan]

variable [Quantity.Lawful κ]

theorem noBusierThan_total (ha : Quantity.IsNumber a.usedRatio)
    (hb : Quantity.IsNumber b.usedRatio) :
    a.noBusierThan b = true ∨ b.noBusierThan a = true := by
  simp only [noBusierThan_iff]
  rcases lt_trichotomy a.startingCount b.startingCount with h | h | h
  · exact .inl (.inl h)
  · rcases Quantity.Lawful.le_total ha hb with hle | hle
    · exact .inl (.inr ⟨h, hle⟩)
    · exact .inr (.inr ⟨h.symm, hle⟩)
  · exact .inr (.inl h)

theorem noBusierThan_trans (a b c : Capacity κ) (hab : a.noBusierThan b = true)
    (hbc : b.noBusierThan c = true) : a.noBusierThan c = true := by
  rw [noBusierThan_iff] at hab hbc ⊢
  rcases hab with hab | ⟨hab, hle⟩
  · rcases hbc with hbc | ⟨hbc, -⟩
    · exact .inl (hab.trans hbc)
    · exact .inl (hbc ▸ hab)
  · rcases hbc with hbc | ⟨hbc, hle'⟩
    · exact .inl (hab ▸ hbc)
    · exact .inr ⟨hab.trans hbc, Quantity.Lawful.le_trans hle hle'⟩

end Busy

variable {c : Capacity ℚ}

theorem usedRatio_eq (h : 0 < c.capacity) : c.usedRatio = c.load / c.capacity := by
  rw [usedRatio, if_neg (not_le.2 h)]

theorem without_usedRatio (h : 0 < c.capacity) (cost : ℚ) :
    (c.without cost).usedRatio = c.usedRatio - cost / c.capacity := by
  have h' : 0 < (c.without cost).capacity := h
  rw [usedRatio_eq h, usedRatio_eq h', without, sub_div]

end Capacity

/-- A worthwhile move of a job whose cost is below the threshold leads to an executor that is less
in use than the present one is without the job. -/
theorem moveTo?_usedRatio_lt {balanceAt : ℚ} {run : Run ℚ} {current other : Capacity ℚ}
    {move : Move ℚ} (h : moveTo? balanceAt run current other = some move)
    (hcap : 0 < current.capacity)
    (hsmall : run.job.cost + Quantity.tolerance * current.capacity < balanceAt) :
    other.usedRatio < (current.without run.job.cost).usedRatio := by
  obtain ⟨-, -, -, hgain, -⟩ := moveTo?_eq_some h
  have hworth : balanceAt / current.capacity ≤ worthwhile balanceAt current other := by
    unfold worthwhile Quantity.larger
    split
    · rename_i hlt
      exact hlt.le
    · exact le_refl _
  have hratio : run.job.cost / current.capacity + Quantity.tolerance <
      balanceAt / current.capacity := by
    have hdiv := (div_lt_div_iff_of_pos_right hcap).2 hsmall
    rw [add_div, mul_div_assoc, div_self hcap.ne', mul_one] at hdiv
    exact hdiv
  rw [Capacity.without_usedRatio hcap]
  simp only [Capacity.spareRatio, not_lt] at hgain
  linarith

/-- Another executor with room for the cost comes first: one listed before that is no more in use,
or one listed after that is less in use. -/
def Capacity.Outbid (here : Capacity ℚ) (before after : Snapshot ℚ) (cost : ℚ) : Prop :=
  (∃ c ∈ before, c.exceededBy cost = false ∧ c.usedRatio ≤ here.usedRatio) ∨
    ∃ c ∈ after, c.exceededBy cost = false ∧ c.usedRatio < here.usedRatio

/-- **A run is placed elsewhere exactly when an executor has no room for it or is outbid**, given
that no run is starting anywhere. -/
theorem place_returns_iff {before after : Snapshot ℚ} {here : Capacity ℚ} {config : Config ℚ}
    {started : Nat} {now : Instant} {cost : ℚ} {executor : String}
    (hquiet : ∀ c ∈ before ++ here :: after, c.startingCount = 0 ∧ c.lastStart = none)
    (hother : ∀ c ∈ before ++ after, c.executor ≠ here.executor)
    (hplace : place (before ++ here :: after) config started now cost = .on executor) :
    executor ≠ here.executor ↔
      here.exceededBy cost = true ∨ here.Outbid before after cost := by
  obtain ⟨-, c, rfl, hpick⟩ := place_eq_on_iff.1 hplace
  obtain ⟨-, c', hc', -, -, hmay⟩ := place_eq_on hplace
  -- with nothing starting, every executor may start one more run
  have hlimit : 0 < config.simultaneousStarts := by
    simp only [Capacity.mayStart, Bool.and_eq_true, decide_eq_true_eq, (hquiet c' hc').1] at hmay
    exact hmay.1
  have hall : ((before ++ here :: after).filter (!·.exceededBy cost)).filter
      (·.mayStart config now) = (before ++ here :: after).filter (!·.exceededBy cost) := by
    refine List.filter_eq_self.2 fun c hc => ?_
    obtain ⟨hnone, hlast⟩ := hquiet c (List.mem_filter.1 hc).1
    simp [Capacity.mayStart, hnone, hlast, hlimit]
  rw [hall] at hpick
  have hmem : c ∈ before ++ here :: after := (List.mem_filter.1 (pick_mem hpick)).1
  have heq : c.executor = here.executor ↔ c = here := by
    constructor
    · intro hid
      rcases List.mem_append.1 hmem with hc | hc
      · exact absurd hid (hother c (List.mem_append_left _ hc))
      rcases List.mem_cons.1 hc with rfl | hc
      · rfl
      · exact absurd hid (hother c (List.mem_append_right _ hc))
    · rintro rfl
      rfl
  cases hroom : here.exceededBy cost with
  | true =>
    have hfits := (List.mem_filter.1 (pick_mem hpick)).2
    simp only [true_or, iff_true, ne_eq, heq]
    rintro rfl
    simp [hroom] at hfits
  | false =>
    have hfilter : (before ++ here :: after).filter (!·.exceededBy cost) =
        before.filter (!·.exceededBy cost) ++ here :: after.filter (!·.exceededBy cost) := by
      simp [hroom]
    rw [hfilter] at hpick
    have hout : ∀ l : Snapshot ℚ, l ⊆ before ++ after → here ∉ l.filter (!·.exceededBy cost) :=
      fun l hl hin => hother here (hl (List.mem_filter.1 hin).1) rfl
    have hback : c = here ↔
        (∀ y ∈ before.filter (!·.exceededBy cost), y.noBusierThan here = false) ∧
        ∀ y ∈ after.filter (!·.exceededBy cost), here.noBusierThan y = true := by
      rw [← pick_append_eq_some_iff Capacity.noBusierThan_trans
        (fun _ _ _ _ => Capacity.noBusierThan_total (le_refl _) (le_refl _))
        (hout before (List.subset_append_left _ _))
        (hout after (List.subset_append_right _ _)), hpick, Option.some.injEq]
    -- with nothing starting, only the parts in use are compared
    have hused : ∀ y z : Capacity ℚ, y ∈ before ++ here :: after → z ∈ before ++ here :: after →
        (y.noBusierThan z = true ↔ y.usedRatio ≤ z.usedRatio) := by
      intro y z hy hz
      simp [Capacity.noBusierThan_iff, (hquiet y hy).1, (hquiet z hz).1]
    have hhere : here ∈ before ++ here :: after := by simp
    simp only [ne_eq, heq, hback, Bool.false_eq_true, false_or, Capacity.Outbid, List.mem_filter,
      Bool.not_eq_eq_eq_not, Bool.not_true, and_imp, not_and_or, not_forall]
    refine or_congr ?_ ?_
    · constructor
      · rintro ⟨y, hy, hfits, hle⟩
        exact ⟨y, hy, hfits, (hused y here (by simp [hy]) hhere).1 (by simpa using hle)⟩
      · rintro ⟨y, hy, hfits, hle⟩
        exact ⟨y, hy, hfits, by simpa using (hused y here (by simp [hy]) hhere).2 hle⟩
    · constructor
      · rintro ⟨y, hy, hfits, hle⟩
        rw [hused here y hhere (by simp [hy]), not_le] at hle
        exact ⟨y, hy, hfits, hle⟩
      · rintro ⟨y, hy, hfits, hlt⟩
        refine ⟨y, hy, hfits, ?_⟩
        rw [hused here y hhere (by simp [hy]), not_le]
        exact hlt

section Vacated

variable {r left : Registry ℚ} {job : String} {run : Run ℚ} {e : Executor ℚ} {now : Instant}
  {window : Option Duration} {f : Run ℚ → Run ℚ}

/-- What an executor offers when a run has come off it: all that it did, and the cost of the run. -/
theorem Capacity.ofExecutor_vacated (hran : ∀ run ∈ left.allRuns, run.ranAt.isSome = true)
    (hrun : left.runs.get? job = some run) (hon : run.isCarriedBy e.id = true)
    (hoff : (f run).isCarriedBy e.id = false) :
    Capacity.ofExecutor (left.modifyRun job f) e =
      (Capacity.ofExecutor left e).without run.job.cost := by
  obtain ⟨before, after, hleft, hgone⟩ := Registry.carriedBy_split hrun hon hoff
  have hcarried : ∀ run ∈ left.carriedBy e.id, run.ranAt.isSome = true :=
    fun run hrun => hran run (Registry.mem_carriedBy.1 hrun).1
  have hsub : (left.modifyRun job f).carriedBy e.id ⊆ left.carriedBy e.id := by
    rw [hleft, hgone]
    exact ((List.sublist_cons_self run after).append_left before).subset
  have hload : (left.modifyRun job f).load e = left.load e - run.job.cost := by
    rw [Registry.load, Registry.load, Quantity.sum_map, Quantity.sum_map, hleft, hgone]
    simp only [Registry.weigh, List.map_append, List.map_cons, List.sum_append, List.sum_cons]
    ring
  rw [Capacity.ofExecutor_of_ran hcarried,
    Capacity.ofExecutor_of_ran fun run hrun => hcarried run (hsub hrun), hload]
  rfl

/-- What the executors offer when a running job has come off its executor and all that the usable
executors carry is else as before. -/
theorem ofRegistry_vacated (hsound : left.Sound) (hexecutors : r.executors = left.executors)
    (hran : ∀ run ∈ left.allRuns, run.ranAt.isSome = true)
    (hrun : left.runs.get? job = some run) (hst : run.stopping = false)
    (hoff : ∀ executor, (f run).isCarriedBy executor = false)
    (hcarried : ∀ e ∈ left.executors, e.paused = false →
      r.carriedBy e.id = (left.modifyRun job f).carriedBy e.id)
    {here : Capacity ℚ} (hhere : here ∈ Snapshot.ofRegistry left now window)
    (hon : run.executor = some here.executor) :
    ∃ before after, Snapshot.ofRegistry left now window = before ++ here :: after ∧
      Snapshot.ofRegistry r now window = before ++ here.without run.job.cost :: after ∧
      (∀ c ∈ before ++ after, c.executor ≠ here.executor) ∧
      ∀ c ∈ before ++ here :: after, c.startingCount = 0 ∧ c.lastStart = none := by
  have hstarted := (hsound.shaped hrun).started_of_ran (hran run (Table.mem_values hrun))
  have hids : (r.executors.map (·.id)).Nodup := hexecutors ▸ hsound.executors
  rw [Snapshot.ofRegistry_eq_executors hsound.executors] at hhere ⊢
  rw [Snapshot.ofRegistry_eq_executors hids, hexecutors]
  obtain ⟨e, he, rfl⟩ := List.mem_map.1 hhere
  have hcarries : ∀ executor, run.isCarriedBy executor = (executor == e.id) := by
    intro executor
    have hbound : run.executor = some e.id := hon
    simp [Run.isCarriedBy, Run.isBoundTo, hst, hstarted, hbound, eq_comm]
  obtain ⟨before, after, hsplit⟩ := List.append_of_mem he
  -- every usable executor carries what it did, but for the one that has lost the run
  have hvacated : ∀ e' ∈ before ++ e :: after,
      Capacity.ofExecutor r e' = Capacity.ofExecutor (left.modifyRun job f) e' := by
    intro e' he'
    rw [← hsplit] at he'
    obtain ⟨hmem, husable⟩ := List.mem_filter.1 he'
    exact Capacity.ofExecutor_congr (hcarried e' hmem (Executor.isUsable_iff.1 husable).1)
  have hlost : Capacity.ofExecutor r e = (Capacity.ofExecutor left e).without run.job.cost :=
    (hvacated e (by simp)).trans
      (Capacity.ofExecutor_vacated hran hrun (by simp [hcarries]) (hoff e.id))
  have hother : ∀ e' ∈ before ++ after, e'.id ≠ e.id := by
    have hids : ((before ++ e :: after).map (·.id)).Nodup := by
      rw [← hsplit]
      exact hsound.executors.sublist (List.filter_sublist.map _)
    rw [List.map_append, List.map_cons, List.nodup_middle, List.nodup_cons, ← List.map_append]
      at hids
    exact fun e' he' hid => hids.1 (List.mem_map.2 ⟨e', he', hid⟩)
  have hsame : ∀ e' ∈ before ++ after, Capacity.ofExecutor r e' = Capacity.ofExecutor left e' := by
    intro e' he'
    refine (hvacated e' ?_).trans (Capacity.ofExecutor_congr ?_)
    · exact ((List.sublist_cons_self e after).append_left before).subset he'
    · exact Registry.carriedBy_modifyRun hrun (by simp [hcarries, hother e' he']) (hoff e'.id)
  refine ⟨before.map (Capacity.ofExecutor left), after.map (Capacity.ofExecutor left), ?_, ?_, ?_,
    ?_⟩
  · rw [hsplit, List.map_append, List.map_cons]
  · rw [hsplit, List.map_append, List.map_cons, hlost]
    congr 1
    · exact List.map_congr_left fun e' he' => hsame e' (List.mem_append_left _ he')
    · congr 1
      exact List.map_congr_left fun e' he' => hsame e' (List.mem_append_right _ he')
  · rw [← List.map_append]
    simp only [List.mem_map]
    rintro c ⟨e', he', rfl⟩
    exact hother e' he'
  · rw [← List.map_cons, ← List.map_append]
    simp only [List.mem_map]
    rintro c ⟨e', -, rfl⟩
    rw [Capacity.ofExecutor_of_ran fun run hrun => hran run (Registry.mem_carriedBy.1 hrun).1]
    exact ⟨rfl, rfl⟩

end Vacated

end Dispatch
