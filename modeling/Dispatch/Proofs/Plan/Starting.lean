import Mathlib.Algebra.Order.Ring.Rat
import Dispatch.Proofs.Plan.Balance

/-!
# What a start does to the runs that drain

A run on a paused executor drains: it may stay within its slack, as long as the other executors have
room for it besides everything that is still to run.  A run that has just been started takes its
cost of the room on its executor and is still to run.  So its cost counts twice against the runs
that drain, where it counted once while it was pending.

* `Registry.elsewhere` : the room that counts for a run that drains;
* `PlannedStart.elsewhere_eq` : how much of it a start takes;
* `PlannedStart.stopReason?_iff` : after a start no run has to stop but one that drains;
* `PlannedStart.plan_stop_iff` : **a start brings about a stop exactly when a run that drains costs
  more than is left**.
-/

namespace Dispatch

section Sums

variable {r : Registry ℚ} {job : String} {run run' : Run ℚ}

/-- What a run adds to the load of an executor. -/
def Run.loadShare (executor : String) (run : Run ℚ) : ℚ :=
  if run.isCarriedBy executor then run.job.cost else 0

/-- What a run adds to the cost of everything that is still to run. -/
def Run.unrunShare (run : Run ℚ) : ℚ := if run.isUnrun then run.job.cost else 0

namespace Registry

theorem load_eq (r : Registry ℚ) (e : Executor ℚ) : r.load e = r.tally (Run.loadShare e.id) := by
  rw [load, carriedBy_eq, Quantity.sum_map, weigh_filter]
  rfl

theorem unrunCost_eq (r : Registry ℚ) : unrunCost r.allRuns = r.tally Run.unrunShare := by
  rw [unrunCost, Quantity.sum_map, weigh_filter]
  rfl

/-- A sum over all runs when one of them becomes another. -/
theorem tally_modifyRun (hrun : r.runs.get? job = some run) (w : Run ℚ → ℚ) :
    (r.modifyRun job fun _ => run').tally w = r.tally w - w run + w run' := by
  obtain ⟨rest, htally, hmod, -⟩ := exists_rest hrun w
  rw [hmod, htally]
  ring

end Registry

/-- One term of a sum changes. -/
theorem sum_map_split {α : Type} {l : List α} {x : α} {f g : α → ℚ} (hnodup : l.Nodup)
    (hx : x ∈ l) (hother : ∀ y ∈ l, y ≠ x → g y = f y) :
    (l.map g).sum = (l.map f).sum - (f x - g x) := by
  obtain ⟨before, after, rfl⟩ := List.append_of_mem hx
  rw [List.nodup_middle, List.nodup_cons] at hnodup
  have hsame : ∀ y ∈ before ++ after, g y = f y := fun y hy =>
    hother y ((List.perm_middle.mem_iff).2 (List.mem_cons_of_mem _ hy))
      (fun h => hnodup.1 (h ▸ hy))
  have hbefore := List.map_congr_left fun y hy => hsame y (List.mem_append_left after hy)
  have hafter := List.map_congr_left fun y hy => hsame y (List.mem_append_right before hy)
  simp only [List.map_append, List.map_cons, List.sum_append, List.sum_cons, hbefore, hafter]
  ring

end Sums

/-! ### Runs that drain -/

namespace Registry

/-- The executors that offer room at an instant. -/
def usable (r : Registry ℚ) (config : Config ℚ) (now : Instant) : List (Executor ℚ) :=
  r.executors.filter fun e => !e.paused && e.isAlive now config.aliveWindow

/-- The room that executors but the given one have besides everything that is still to run. -/
def elsewhere (r : Registry ℚ) (config : Config ℚ) (now : Instant) (executor : String) : ℚ :=
  (Snapshot.ofRegistry r now config.aliveWindow).spareExcluding executor - unrunCost r.allRuns

/-- Why a run has to stop, among all the runs of a registry. -/
def stopReason? (r : Registry ℚ) (config : Config ℚ) (now : Instant) (run : Run ℚ) :
    Option StopReason :=
  run.mustStop? r (Snapshot.ofRegistry r now config.aliveWindow) config (unrunCost r.allRuns) now

/-- The run is on a paused executor, and not on the way off it. -/
structure Drains (r : Registry ℚ) (run : Run ℚ) (e : Executor ℚ) : Prop where
  registered : run ∈ r.allRuns
  executor : run.executor = some e.id
  staying : run.stopping = false
  offered : e ∈ r.executors
  paused : e.paused = true

variable {r r' : Registry ℚ} {config : Config ℚ} {now : Instant} {executor : String} {run : Run ℚ}
  {e : Executor ℚ} {reason : StopReason}

theorem spareExcluding_eq (hids : (r.executors.map (·.id)).Nodup) (config : Config ℚ)
    (now : Instant) (executor : String) :
    (Snapshot.ofRegistry r now config.aliveWindow).spareExcluding executor =
      (((r.usable config now).filter (·.id != executor)).map fun e =>
        Quantity.positivePart (e.capacity - r.load e)).sum := by
  have hsum : ∀ l : List ℚ, Quantity.sum l = l.sum := fun l => List.sum_eq_foldl.symm
  rw [Snapshot.spareExcluding, hsum, Snapshot.ofRegistry_eq_executors hids, List.filter_map,
    List.map_map]
  rfl

/-- Whether a run may stay on its paused executor: it is within its slack, and there is room for it
elsewhere. -/
theorem mayDrain_iff :
    run.mayDrain executor (Snapshot.ofRegistry r now config.aliveWindow) config
        (unrunCost r.allRuns) now = true ↔
      (config.slack ≠ 0 ∧ ∃ ranAt, run.ranAt = some ranAt ∧ now.since ranAt < config.slack) ∧
        ¬ r.elsewhere config now executor + Quantity.tolerance < run.job.cost := by
  cases hran : run.ranAt with
  | none => simp [Run.mayDrain, hran]
  | some ranAt =>
    -- a run that is running is not among those still to run
    have hown : run.isUnrun = false := by simp [Run.isUnrun, hran]
    have hroom : (Snapshot.ofRegistry r now config.aliveWindow).spareExcluding executor -
        (unrunCost r.allRuns - 0) = r.elsewhere config now executor := by
      rw [sub_zero, elsewhere]
    have hmay : run.mayDrain executor (Snapshot.ofRegistry r now config.aliveWindow) config
        (unrunCost r.allRuns) now =
        (config.slack ≠ 0 && !decide ((Snapshot.ofRegistry r now config.aliveWindow).spareExcluding
          executor - (unrunCost r.allRuns - 0) + Quantity.tolerance < run.job.cost) &&
          decide (now.since ranAt < config.slack)) := by
      simp only [Run.mayDrain, hown, hran, Bool.false_eq_true, if_false]
    rw [hmay, hroom]
    simp only [ne_eq, decide_not, Bool.and_eq_true, Bool.not_eq_true', decide_eq_false_iff_not,
      decide_eq_true_eq, Option.some.injEq, exists_eq_left']
    tauto

/-- A run that did not have to stop before has to now only if it drains and costs more than the room
that is left. -/
theorem stopReason?_iff (h : r.Sound) (hexecutors : r'.executors = r.executors)
    (hjobs : r'.jobs = r.jobs) (hrun : run ∈ r.allRuns)
    (hstay : r.stopReason? config now run = none) :
    r'.stopReason? config now run = some reason ↔ reason = .executorPaused ∧
      ∃ e, r.Drains run e ∧
        r'.elsewhere config now e.id + Quantity.tolerance < run.job.cost := by
  by_cases hdrains : ∃ e, r.Drains run e
  · obtain ⟨e, hdrains⟩ := hdrains
    have hone : (∃ e, r.Drains run e ∧
        r'.elsewhere config now e.id + Quantity.tolerance < run.job.cost) ↔
        r'.elsewhere config now e.id + Quantity.tolerance < run.job.cost := by
      refine ⟨?_, fun hless => ⟨e, hdrains, hless⟩⟩
      rintro ⟨e', hdrains', hless⟩
      have hid : e'.id = e.id := Option.some.inj (hdrains'.executor.symm.trans hdrains.executor)
      rwa [hid] at hless
    obtain ⟨hmay, heq⟩ := Run.mustStop?_drains hexecutors hjobs hdrains.executor hdrains.staying
      (h.executor?_eq hdrains.offered) hdrains.paused hstay
    have hslack := (mayDrain_iff.1 hmay).1
    rw [hone, stopReason?, heq]
    split
    · rename_i hmay'
      have hroom := (mayDrain_iff.1 hmay').2
      simp [hroom]
    · rename_i hmay'
      have hroom := mt (fun hroom => mayDrain_iff.2 ⟨hslack, hroom⟩) hmay'
      simp [not_not.1 hroom, eq_comm]
  · refine iff_of_false (fun hmust => ?_) fun ⟨_, e, hdrains', _⟩ => hdrains ⟨e, hdrains'⟩
    obtain ⟨-, hst, -⟩ := Run.of_mustStop?_eq_some hmust
    have hsame : r'.stopReason? config now run = r.stopReason? config now run := by
      refine Run.mustStop?_congr hexecutors hjobs fun executor e hexec he => ?_
      obtain ⟨hmem, rfl⟩ := mem_of_executor? he
      by_contra hpaused
      exact hdrains ⟨e, hrun, hexec, hst, hmem, by simpa using hpaused⟩
    rw [hmust, hstay] at hsame
    cases hsame

end Registry

/-! ### A start -/

/-- How much a start on an executor takes of the room that counts for the runs that drain: the part
that the job, as it is defined now, takes of what is left there, and what it costs more than it did
while it was pending. -/
def Capacity.takenBy (c : Capacity ℚ) (definition : Job ℚ) (run : Run ℚ) : ℚ :=
  Quantity.positivePart c.spare - Quantity.positivePart (c.spare - definition.cost) +
    (definition.cost - run.job.cost)

/-- A start is planned, of a run under a definition on an executor. -/
structure PlannedStart (r : Registry ℚ) (config : Config ℚ) (now : Instant) (job : String)
    (run : Run ℚ) (definition : Job ℚ) (target : Executor ℚ) : Prop where
  sound : r.Sound
  registered : r.runs.get? job = some run
  defined : r.jobs.get? job = some definition
  offered : target ∈ r.executors
  planned : (plan r config now).action = some (.start job target.id)

/-- The registry once a run has been started. -/
def Registry.withStart (r : Registry ℚ) (job : String) (run : Run ℚ) (definition : Job ℚ)
    (target : Executor ℚ) (now : Instant) : Registry ℚ :=
  r.modifyRun job fun _ => run.start definition target now

namespace PlannedStart

variable {r : Registry ℚ} {config : Config ℚ} {now : Instant} {job : String} {run : Run ℚ}
  {definition : Job ℚ} {target : Executor ℚ}
  (h : PlannedStart r config now job run definition target)

include h

theorem pending : run.executor = none ∧ run.stopping = false :=
  Run.isPending_iff.1 (plan_start_pending h.sound h.registered h.planned).1

theorem usable : target ∈ r.usable config now := by
  obtain ⟨-, c, hc, hid, -⟩ :=
    place_eq_on (plan_start_pending h.sound h.registered h.planned).2.2
  rw [Snapshot.ofRegistry_eq_executors h.sound.executors] at hc
  obtain ⟨e, husable, rfl⟩ := List.mem_map.1 hc
  have hsame : e = target :=
    List.inj_on_of_nodup_map h.sound.executors (List.mem_filter.1 husable).1 h.offered hid
  exact hsame ▸ husable

theorem open_alive :
    target.paused = false ∧ target.isAlive now config.aliveWindow = true := by
  have husable := (List.mem_filter.1 h.usable).2
  simpa only [Bool.and_eq_true, Bool.not_eq_true'] using husable

theorem withStart_sound : (r.withStart job run definition target now).Sound :=
  h.sound.modifyRun h.registered (h.sound.job_key h.defined) (h.sound.job_cost h.defined)
    (.start h.pending.2 _ _ _) rfl

/-- A start adds the cost of the job, as it is defined now, to the load of its executor only. -/
theorem load_eq (e : Executor ℚ) :
    (r.withStart job run definition target now).load e =
      r.load e + if target.id = e.id then definition.cost else 0 := by
  have hbefore : run.loadShare e.id = 0 := by
    simp [Run.loadShare, Run.isCarriedBy, Run.isBoundTo, h.pending.1]
  have hafter : (run.start definition target now).loadShare e.id =
      if target.id = e.id then definition.cost else 0 := by
    simp [Run.loadShare, Run.isCarriedBy, Run.isBoundTo, Run.start, h.pending.2]
  rw [Registry.load_eq, Registry.load_eq, Registry.withStart,
    Registry.tally_modifyRun h.registered, hbefore, hafter, sub_zero]

/-- A run that is started is still to run, at the cost of the job as it is defined now. -/
theorem unrunCost_eq :
    unrunCost (r.withStart job run definition target now).allRuns =
      unrunCost r.allRuns + (definition.cost - run.job.cost) := by
  have hshape := h.sound.shaped h.registered
  have hran : run.ranAt = none := by
    cases hran : run.ranAt with
    | none => rfl
    | some _ =>
      have hbound := (hshape.of_started (hshape.started_of_ran (by simp [hran]))).1
      simp [h.pending.1] at hbound
  have hbefore : run.unrunShare = run.job.cost := by
    simp [Run.unrunShare, Run.isUnrun, hshape.removing_eq_false h.pending.2, hran]
  have hafter : (run.start definition target now).unrunShare = definition.cost := by
    simp [Run.unrunShare, Run.isUnrun, Run.start]
  rw [Registry.unrunCost_eq, Registry.unrunCost_eq, Registry.withStart,
    Registry.tally_modifyRun h.registered, hbefore, hafter]
  ring

/-- **What a start takes** of the room that counts for the runs on another executor. -/
theorem elsewhere_eq {executor : String} (hother : target.id ≠ executor) :
    (r.withStart job run definition target now).elsewhere config now executor =
      r.elsewhere config now executor -
        (Capacity.ofExecutor r target).takenBy definition run := by
  have hnodup : ((r.usable config now).filter (·.id != executor)).Nodup :=
    ((List.Nodup.of_map _ h.sound.executors).filter _).filter _
  have hmem : target ∈ (r.usable config now).filter (·.id != executor) :=
    List.mem_filter.2 ⟨h.usable, by simpa using hother⟩
  have hspare := sum_map_split (f := fun e => Quantity.positivePart (e.capacity - r.load e))
    (g := fun e => Quantity.positivePart (e.capacity -
      (r.withStart job run definition target now).load e)) hnodup hmem (by
    intro e he hne
    have hid : target.id ≠ e.id := by
      intro hid
      have hoffered := (List.mem_filter.1 (List.mem_filter.1 he).1).1
      exact hne (List.inj_on_of_nodup_map h.sound.executors hoffered h.offered hid.symm)
    simp only [h.load_eq, if_neg hid, add_zero])
  have hleft : target.capacity - (r.withStart job run definition target now).load target =
      target.capacity - r.load target - definition.cost := by
    rw [h.load_eq, if_pos rfl]
    ring
  have husable : (r.withStart job run definition target now).usable config now =
      r.usable config now := rfl
  have htaken : (Capacity.ofExecutor r target).takenBy definition run =
      Quantity.positivePart (target.capacity - r.load target) -
        Quantity.positivePart (target.capacity - r.load target - definition.cost) +
        (definition.cost - run.job.cost) := rfl
  rw [Registry.elsewhere, Registry.elsewhere, Registry.spareExcluding_eq h.sound.executors,
    Registry.spareExcluding_eq h.withStart_sound.executors, h.unrunCost_eq, husable, hspare, hleft,
    htaken]
  ring

/-- The run that has been started may stay. -/
theorem stopReason?_started :
    (r.withStart job run definition target now).stopReason? config now
      (run.start definition target now) = none := by
  obtain ⟨hopen, halive⟩ := h.open_alive
  have hdef : r.jobs.get? definition.id = some definition :=
    (h.sound.job_key h.defined).symm ▸ h.defined
  exact Run.mustStop?_start h.pending.2 hdef (h.sound.executor?_eq h.offered) hopen halive

theorem mem_withStart_iff {run' : Run ℚ} :
    run' ∈ (r.withStart job run definition target now).allRuns ↔
      run' = run.start definition target now ∨ run' ∈ r.allRuns ∧ run'.job.id ≠ job := by
  have hkey : (run.start definition target now).job.id = job := h.sound.job_key h.defined
  have hget : ∀ id, (r.withStart job run definition target now).runs.get? id =
      if id = job then some (run.start definition target now) else r.runs.get? id := fun id =>
    Registry.get?_modifyRun h.registered _
  constructor
  · intro hrun'
    have hfound := h.withStart_sound.get?_of_mem hrun'
    rw [hget] at hfound
    split at hfound
    · exact .inl (Option.some.inj hfound).symm
    · rename_i hne
      exact .inr ⟨Table.mem_values hfound, hne⟩
  · rintro (rfl | ⟨hrun', hne⟩)
    · exact Table.mem_values ((hget job).trans (if_pos rfl))
    · exact Table.mem_values ((hget run'.job.id).trans
        ((if_neg hne).trans (h.sound.get?_of_mem hrun')))

/-- **Which runs have to stop after a start**: those that drain and cost more than is left. -/
theorem stopReason?_iff {run' : Run ℚ} {reason : StopReason}
    (hrun' : run' ∈ (r.withStart job run definition target now).allRuns) :
    (r.withStart job run definition target now).stopReason? config now run' = some reason ↔
      reason = .executorPaused ∧ run'.job.id ≠ job ∧ ∃ e, r.Drains run' e ∧
        r.elsewhere config now e.id - (Capacity.ofExecutor r target).takenBy definition run +
          Quantity.tolerance < run'.job.cost := by
  rcases h.mem_withStart_iff.1 hrun' with rfl | ⟨hrun', hne⟩
  · have hkey : (run.start definition target now).job.id = job := h.sound.job_key h.defined
    rw [h.stopReason?_started]
    simp [hkey]
  have hstay := (plannedStop?_eq_none_iff.1
    (plan_start_pending h.sound h.registered h.planned).2.1).1 run' hrun'
  have hforced : (r.withStart job run definition target now).stopReason? config now run' =
      some reason ↔ _ := Registry.stopReason?_iff h.sound rfl rfl hrun' hstay
  rw [hforced]
  simp only [ne_eq, hne, not_false_eq_true, true_and]
  refine and_congr_right fun _ => exists_congr fun e => and_congr_right fun hdrains => ?_
  have hother : target.id ≠ e.id := by
    intro hid
    have hsame := List.inj_on_of_nodup_map h.sound.executors h.offered hdrains.offered hid
    have hopen := h.open_alive.1
    rw [hsame, hdrains.paused] at hopen
    cases hopen
  rw [h.elsewhere_eq hother]

/-- The job cap has room for one more start. -/
theorem overCap?_eq_none :
    overCap? (r.withStart job run definition target now).allRuns
      (r.withStart job run definition target now).startedCount config = none := by
  have hcap := Config.capReached_eq_false_iff.1
    (place_eq_on (plan_start_pending h.sound h.registered h.planned).2.2).1
  have hcount : (r.withStart job run definition target now).startedCount ≤ r.startedCount + 1 :=
    Registry.startedCount_modifyRun_le_succ h.registered _
  refine h.withStart_sound.overCap?_eq_none_iff.2 ?_
  omega

/-- **A stop that is planned after a start** is of a run that drains. -/
theorem of_plan_stop {id : String} {reason : StopReason}
    (hplan : (plan (r.withStart job run definition target now) config now).action =
      some (.stop id reason)) :
    reason = .executorPaused ∧ id ≠ job ∧ ∃ drained e, drained.job.id = id ∧ r.Drains drained e ∧
      r.elsewhere config now e.id - (Capacity.ofExecutor r target).takenBy definition run +
        Quantity.tolerance < drained.job.cost := by
  generalize haction : Action.stop id reason = action at hplan
  have hstop : plannedStop? (r.withStart job run definition target now) config now =
      some action := by
    subst haction
    exact plan_stop hplan
  cases plannedStop?_cases hstop with
  | forced drained _ mem must =>
    obtain ⟨rfl, rfl⟩ := Action.stop.inj haction
    obtain ⟨hreason, hne, e, hdrains, hless⟩ := (h.stopReason?_iff mem).1 must
    exact ⟨hreason, hne, drained, e, rfl, hdrains, hless⟩
  | surplus _ surplus =>
    rw [h.overCap?_eq_none] at surplus
    cases surplus
  | balancing _ _ _ ran =>
    have hran := ran _ (h.mem_withStart_iff.2 (.inl rfl))
    cases hran

/-- **A start brings about a stop** exactly when a run that drains costs more than is left. -/
theorem plan_stop_iff :
    (∃ id reason, (plan (r.withStart job run definition target now) config now).action =
        some (.stop id reason)) ↔
      ∃ drained e, r.Drains drained e ∧
        r.elsewhere config now e.id - (Capacity.ofExecutor r target).takenBy definition run +
          Quantity.tolerance < drained.job.cost := by
  constructor
  · rintro ⟨id, reason, hplan⟩
    obtain ⟨-, -, drained, e, -, hdrains, hless⟩ := h.of_plan_stop hplan
    exact ⟨drained, e, hdrains, hless⟩
  · rintro ⟨drained, e, hdrains, hless⟩
    have hne : drained.job.id ≠ job := by
      intro hid
      have hget := h.sound.get?_of_mem hdrains.registered
      rw [hid, h.registered, Option.some.injEq] at hget
      have hexec := hdrains.executor
      rw [← hget, h.pending.1] at hexec
      cases hexec
    have hmem := h.mem_withStart_iff.2 (.inr ⟨hdrains.registered, hne⟩)
    have hmust := (h.stopReason?_iff hmem).2 ⟨rfl, hne, e, hdrains, hless⟩
    have hsome : plannedStop? (r.withStart job run definition target now) config now ≠ none := by
      intro hnone
      have hstay := (plannedStop?_eq_none_iff.1 hnone).1 drained hmem
      rw [← Registry.stopReason?, hmust] at hstay
      cases hstay
    cases haction : (plan (r.withStart job run definition target now) config now).action with
    | none => exact absurd (plan_idle.1 haction).1 hsome
    | some action =>
      cases action with
      | stop id reason => exact ⟨id, reason, rfl⟩
      | start id executor => exact absurd (plan_start haction).1 hsome

end PlannedStart

end Dispatch
