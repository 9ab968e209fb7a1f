import Dispatch.Plan.Basic
import Dispatch.Proofs.Registry.Sound
import Dispatch.Proofs.Selection

/-!
# What the planner decides

One lemma for each outcome of the planner, so that nothing after this module opens `plan`:

* `plannedStop?_eq_none_iff` : there is nothing to stop;
* `plannedStop?_cases`, `plannedStop?_surplus`, `plannedStop?_balance_iff`, `plannedStop?_balance` :
  the grounds on which a stop is planned;
* `firstPlaced_eq_some_iff`, `firstPlaced_eq_none_iff` : how far the waiting line is walked along;
* `place_eq_on_iff`, `place_eq_on` : how an executor is chosen, and what it offers;
* `plan_stop`, `plan_of_plannedStop?` : a plan with a stop;
* `plan_eq_of_start`, `plan_start`, `plan_start_pending` : what a planned start says, and which run
  it is for;
* `plan_idle` : when nothing is planned;
* `plan_eq_of_idle` : all that is said when nothing is planned;
* `plan_unplaceable_pending` : of which jobs it is said that there is no room.
-/

namespace Dispatch

variable {κ : Type} [Quantity κ] {registry : Registry κ} {config : Config κ} {now : Instant}

omit [Quantity κ] in
@[simp] theorem mem_waitingLine {runs : List (Run κ)} {run : Run κ} :
    run ∈ waitingLine runs ↔ run ∈ runs ∧ run.isPending = true := by
  simp [waitingLine]

theorem plannedStop?_eq_none_iff :
    plannedStop? registry config now = none ↔
      (∀ run ∈ registry.allRuns, run.mustStop? registry
        (Snapshot.ofRegistry registry now config.aliveWindow) config
        (unrunCost registry.allRuns) now = none) ∧
      overCap? registry.allRuns registry.startedCount config = none ∧
      (registry.allRuns.any (·.ranAt.isNone) = true ∨
        balanceMove? registry.allRuns (Snapshot.ofRegistry registry now config.aliveWindow)
          config = none) := by
  simp only [plannedStop?, Option.or_eq_none_iff, List.findSome?_eq_none_iff,
    Option.map_eq_none_iff]
  refine and_congr_right fun _ => and_congr_right fun _ => ?_
  split
  · rename_i h; simp [h]
  · rename_i h; simp [h]

/-- The grounds on which a stop is planned. -/
inductive PlannedStop (registry : Registry κ) (config : Config κ) (now : Instant) : Action → Prop
  | forced (run : Run κ) (reason : StopReason) (mem : run ∈ registry.allRuns)
      (must : run.mustStop? registry (Snapshot.ofRegistry registry now config.aliveWindow) config
        (unrunCost registry.allRuns) now = some reason) :
      PlannedStop registry config now (.stop run.job.id reason)
  | surplus (run : Run κ)
      (surplus : overCap? registry.allRuns registry.startedCount config = some run) :
      PlannedStop registry config now (.stop run.job.id .overJobLimit)
  | balancing (move : Move κ)
      (stay : ∀ run ∈ registry.allRuns, run.mustStop? registry
        (Snapshot.ofRegistry registry now config.aliveWindow) config
        (unrunCost registry.allRuns) now = none)
      (within : overCap? registry.allRuns registry.startedCount config = none)
      (ran : ∀ run ∈ registry.allRuns, run.ranAt.isSome = true)
      (best : balanceMove? registry.allRuns (Snapshot.ofRegistry registry now config.aliveWindow)
        config = some move) :
      PlannedStop registry config now (.stop move.run.job.id (.loadBalance move.target))

theorem plannedStop?_cases {action : Action}
    (h : plannedStop? registry config now = some action) :
    PlannedStop registry config now action := by
  simp only [plannedStop?, Option.or_eq_some_iff, Option.map_eq_some_iff,
    List.findSome?_eq_none_iff, Option.map_eq_none_iff] at h
  rcases h with h | ⟨hstay, ⟨run, hover, rfl⟩ | ⟨hwithin, h⟩⟩
  · obtain ⟨run, hrun, h⟩ := List.exists_of_findSome?_eq_some h
    obtain ⟨reason, hmust, rfl⟩ := Option.map_eq_some_iff.1 h
    exact .forced run reason hrun hmust
  · exact .surplus run hover
  · split at h
    · cases h
    · rename_i hany
      obtain ⟨move, hbest, rfl⟩ := Option.map_eq_some_iff.1 h
      refine .balancing move hstay hwithin (fun run hrun => ?_) hbest
      cases hran : run.ranAt with
      | some => rfl
      | none => exact absurd (List.any_eq_true.2 ⟨run, hrun, by simp [hran]⟩) hany

/-- Only stops come before the waiting line. -/
theorem plannedStop?_stop {action : Action} (h : plannedStop? registry config now = some action) :
    ∃ job reason, action = .stop job reason := by
  cases plannedStop?_cases h <;> exact ⟨_, _, rfl⟩

/-- A run that has to stop is bound and not being stopped, and it is not for balance. -/
theorem Run.of_mustStop?_eq_some {run : Run κ} {snapshot : Snapshot κ} {unrun : κ}
    {reason : StopReason} (h : run.mustStop? registry snapshot config unrun now = some reason) :
    (∃ executor, run.executor = some executor) ∧ run.stopping = false ∧
      ∀ target, reason ≠ .loadBalance target := by
  unfold mustStop? at h
  cases hexec : run.executor with
  | none => simp [hexec] at h
  | some executor =>
    cases hst : run.stopping with
    | true => simp [hexec, hst] at h
    | false =>
      refine ⟨⟨executor, rfl⟩, rfl, ?_⟩
      rintro target rfl
      simp only [hexec, hst, Bool.false_eq_true, if_false] at h
      repeat' split at h
      all_goals cases h

/-- Only on a paused executor does it depend on other runs whether a run has to stop. -/
theorem Run.mustStop?_congr {left : Registry κ} {run : Run κ} {snapshot snapshot' : Snapshot κ}
    {unrun unrun' : κ} (hexecutors : registry.executors = left.executors)
    (hjobs : registry.jobs = left.jobs)
    (hopen : ∀ executor e, run.executor = some executor → left.executor? executor = some e →
      e.paused = false) :
    run.mustStop? registry snapshot config unrun now =
      run.mustStop? left snapshot' config unrun' now := by
  have hfind : ∀ id, registry.executor? id = left.executor? id := fun id => by
    rw [Registry.executor?, Registry.executor?, hexecutors]
  unfold mustStop?
  cases hexec : run.executor with
  | none => rfl
  | some executor =>
    cases hst : run.stopping with
    | true => rfl
    | false =>
      cases he : left.executor? executor with
      | none => simp only [hfind, he]
      | some e =>
        simp only [hfind, he, hjobs, hopen executor e hexec he, Bool.false_eq_true, if_false]

/-- A run that has just been started on an executor that is alive and not paused need not stop. -/
theorem Run.mustStop?_start {run : Run κ} {definition : Job κ} {target : Executor κ}
    {snapshot : Snapshot κ} {unrun : κ} (hst : run.stopping = false)
    (hdef : registry.jobs.get? definition.id = some definition)
    (htarget : registry.executor? target.id = some target) (hopen : target.paused = false)
    (halive : target.isAlive now config.aliveWindow = true) :
    (run.start definition target now).mustStop? registry snapshot config unrun now = none := by
  have hexec : (run.start definition target now).executor = some target.id := rfl
  have hstaying : (run.start definition target now).stopping = false := hst
  have hrev : (run.start definition target now).executorRevision = some target.revision := rfl
  have hjob : registry.jobs.get? (run.start definition target now).job.id = some definition := hdef
  simp only [mustStop?, hexec, hstaying, htarget, hrev, halive, hjob, hopen]
  simp [isOverdue, start]

/-- Why a run on a paused executor has to stop, when it did not have to before: there is not enough
room elsewhere any more. -/
theorem Run.mustStop?_drains {left : Registry κ} {run : Run κ} {snapshot snapshot' : Snapshot κ}
    {unrun unrun' : κ} {executor : String} {e : Executor κ}
    (hexecutors : registry.executors = left.executors) (hjobs : registry.jobs = left.jobs)
    (hexec : run.executor = some executor) (hst : run.stopping = false)
    (he : left.executor? executor = some e) (hpaused : e.paused = true)
    (hstay : run.mustStop? left snapshot config unrun now = none) :
    run.mayDrain executor snapshot config unrun now = true ∧
      run.mustStop? registry snapshot' config unrun' now =
        if run.mayDrain executor snapshot' config unrun' now then none
        else some .executorPaused := by
  have hfind : registry.executor? executor = some e := by
    rw [Registry.executor?, hexecutors]
    exact he
  unfold mustStop? at hstay ⊢
  simp only [hexec, hst, he, hfind, hjobs, hpaused, Bool.false_eq_true, if_false, if_true]
    at hstay ⊢
  split at hstay
  · cases hstay
  rename_i hrev
  split at hstay
  · cases hstay
  rename_i halive
  split at hstay
  · cases hstay
  rename_i hjob
  split at hstay
  · rename_i hmay
    exact ⟨hmay, by rw [if_neg hrev, if_neg halive, if_neg hjob]⟩
  · cases hstay

theorem findSome?_mustStop? (hstay : ∀ run ∈ registry.allRuns, run.mustStop? registry
    (Snapshot.ofRegistry registry now config.aliveWindow) config (unrunCost registry.allRuns) now =
      none) :
    (registry.allRuns.findSome? fun run => (run.mustStop? registry
      (Snapshot.ofRegistry registry now config.aliveWindow) config (unrunCost registry.allRuns)
      now).map fun reason => Action.stop run.job.id reason) = none :=
  List.findSome?_eq_none_iff.2 fun run hrun => by rw [hstay run hrun, Option.map_none]

/-- When no run has to stop where it is, the run that is above the job cap is stopped. -/
theorem plannedStop?_surplus {run : Run κ}
    (hstay : ∀ run ∈ registry.allRuns, run.mustStop? registry
      (Snapshot.ofRegistry registry now config.aliveWindow) config
      (unrunCost registry.allRuns) now = none)
    (hover : overCap? registry.allRuns registry.startedCount config = some run) :
    plannedStop? registry config now = some (.stop run.job.id .overJobLimit) := by
  simp only [plannedStop?, findSome?_mustStop? hstay, hover, Option.map_some, Option.none_or,
    Option.some_or]

/-- When nothing else has to stop, a job is stopped for balance if all jobs run and one is better
off elsewhere. -/
theorem plannedStop?_balance_iff {job id : String}
    (hstay : ∀ run ∈ registry.allRuns, run.mustStop? registry
      (Snapshot.ofRegistry registry now config.aliveWindow) config
      (unrunCost registry.allRuns) now = none)
    (hwithin : overCap? registry.allRuns registry.startedCount config = none) :
    plannedStop? registry config now = some (.stop job (.loadBalance id)) ↔
      (∀ run ∈ registry.allRuns, run.ranAt.isSome = true) ∧
        ∃ move, balanceMove? registry.allRuns (Snapshot.ofRegistry registry now config.aliveWindow)
          config = some move ∧ move.run.job.id = job ∧ move.target = id := by
  have hran : (∀ run ∈ registry.allRuns, run.ranAt.isSome = true) ↔
      registry.allRuns.any (·.ranAt.isNone) = false := by
    simp [Option.isSome_iff_ne_none]
  rw [hran]
  simp only [plannedStop?, findSome?_mustStop? hstay, hwithin, Option.map_none, Option.none_or]
  cases registry.allRuns.any (·.ranAt.isNone) with
  | true => simp
  | false => simp

/-- What a stop for balance says of all the runs. -/
theorem plannedStop?_balance {job target : String}
    (h : plannedStop? registry config now = some (.stop job (.loadBalance target))) :
    (∀ run ∈ registry.allRuns, run.mustStop? registry
        (Snapshot.ofRegistry registry now config.aliveWindow) config
        (unrunCost registry.allRuns) now = none) ∧
      overCap? registry.allRuns registry.startedCount config = none ∧
      (∀ run ∈ registry.allRuns, run.ranAt.isSome = true) ∧
      ∃ move, move.run.job.id = job ∧
        balanceMove? registry.allRuns (Snapshot.ofRegistry registry now config.aliveWindow)
          config = some move := by
  generalize haction : Action.stop job (.loadBalance target) = action at h
  cases plannedStop?_cases h with
  | forced run reason _ must =>
    obtain ⟨-, hreason⟩ := Action.stop.inj haction
    exact absurd hreason.symm ((Run.of_mustStop?_eq_some must).2.2 target)
  | surplus run =>
    obtain ⟨-, hreason⟩ := Action.stop.inj haction
    cases hreason
  | balancing move stay within ran best =>
    obtain ⟨hjob, -⟩ := Action.stop.inj haction
    exact ⟨stay, within, ran, move, hjob.symm, best⟩

section WaitingLine

variable {placed : Run κ → Placement} {line : List (Run κ)} {passed : List String}
  {run : Run κ} {executor : String}

/-- The jobs of a part of the waiting line for which there is no room. -/
def roomless (placed : Run κ → Placement) (line : List (Run κ)) : List String :=
  (line.filter fun run => placed run = .noRoom).map (·.job.id)

omit [Quantity κ] in
theorem firstPlaced_cons (placed : Run κ → Placement) (run : Run κ) (line : List (Run κ)) :
    firstPlaced placed (run :: line) =
      match placed run with
      | .on executor => ([], some (run, executor))
      | _ =>
        (roomless placed [run] ++ (firstPlaced placed line).1, (firstPlaced placed line).2) := by
  cases h : placed run <;> simp [firstPlaced, h, roomless]

omit [Quantity κ] in
theorem firstPlaced_eq_none_iff :
    firstPlaced placed line = (passed, none) ↔
      (∀ run ∈ line, ∀ executor, placed run ≠ .on executor) ∧ passed = roomless placed line := by
  induction line generalizing passed with
  | nil => simp [firstPlaced, roomless, eq_comm]
  | cons run line ih =>
    rw [firstPlaced_cons]
    cases h : placed run with
    | on executor => simp [h]
    | throttled =>
      simp only [roomless, List.filter_cons, h, List.mem_cons, forall_eq_or_imp] at ih ⊢
      simpa [Prod.ext_iff] using @ih passed
    | noRoom =>
      simp only [roomless, List.filter_cons, h, List.mem_cons, forall_eq_or_imp] at ih ⊢
      constructor
      · intro hp
        obtain ⟨rfl, hnone⟩ := Prod.ext_iff.1 hp
        obtain ⟨hall, hrest⟩ := ih.1 (Prod.ext rfl hnone)
        exact ⟨⟨by simp, hall⟩, by simp [hrest]⟩
      · rintro ⟨⟨-, hall⟩, rfl⟩
        have := ih.2 ⟨hall, rfl⟩
        simp [this]

omit [Quantity κ] in
theorem firstPlaced_eq_some_iff :
    firstPlaced placed line = (passed, some (run, executor)) ↔
      ∃ before after, line = before ++ run :: after ∧ placed run = .on executor ∧
        (∀ run ∈ before, ∀ executor, placed run ≠ .on executor) ∧
        passed = roomless placed before := by
  induction line generalizing passed with
  | nil => simp [firstPlaced]
  | cons first line ih =>
    rw [firstPlaced_cons]
    constructor
    · intro h
      -- the first run of the line has a place, or is passed by
      cases hf : placed first with
      | on e =>
        simp only [hf, Prod.mk.injEq, Option.some.injEq] at h
        obtain ⟨rfl, rfl, rfl⟩ := h
        exact ⟨[], line, rfl, hf, by simp, rfl⟩
      | _ =>
        simp only [hf, Prod.mk.injEq] at h
        obtain ⟨rfl, h⟩ := h
        have hrest : firstPlaced placed line =
            ((firstPlaced placed line).1, some (run, executor)) := Prod.ext rfl h
        obtain ⟨before, after, rfl, hon, hall, hp⟩ := ih.1 hrest
        refine ⟨first :: before, after, rfl, hon, ?_, ?_⟩
        · simpa [hf] using hall
        · simp only [hp]; simp [roomless, hf]
    · rintro ⟨before, after, hline, hon, hall, rfl⟩
      cases before with
      | nil =>
        simp only [List.nil_append, List.cons.injEq] at hline
        obtain ⟨rfl, rfl⟩ := hline
        simp [hon, roomless]
      | cons b before =>
        simp only [List.cons_append, List.cons.injEq] at hline
        obtain ⟨rfl, rfl⟩ := hline
        simp only [List.mem_cons, forall_eq_or_imp] at hall
        have hrest := ih.2 ⟨before, after, rfl, hon, hall.2, rfl⟩
        cases hf : placed first with
        | on e => exact absurd hf (hall.1 e)
        | _ => simp [hrest, roomless, hf]

end WaitingLine

omit [Quantity κ] in
theorem Config.capReached_eq_false_iff {started : Nat} :
    config.capReached started = false ↔ config.maxJobs = 0 ∨ started < config.maxJobs := by
  simp only [capReached, Bool.and_eq_false_iff, decide_eq_false_iff_not]
  omega

/-- The executor chosen is picked among those that have room and may start one more run. -/
theorem place_eq_on_iff {snapshot : Snapshot κ} {started : Nat} {cost : κ} {executor : String} :
    place snapshot config started now cost = .on executor ↔
      config.capReached started = false ∧ ∃ c, c.executor = executor ∧
        pick (fun c held => !held.noBusierThan c)
          ((snapshot.filter (!·.exceededBy cost)).filter (·.mayStart config now)) = some c := by
  simp only [place]
  split
  · rename_i hnone
    simp [List.isEmpty_iff.1 hnone, pick]
  split
  · rename_i hcap
    simp [hcap]
  rename_i hcap
  have hfree : config.capReached started = false := by simpa using hcap
  split
  · rename_i c hpick
    rw [hpick]
    simp [hfree]
  · rename_i hpick
    rw [hpick]
    simp

theorem place_eq_on {snapshot : Snapshot κ} {started : Nat} {cost : κ} {executor : String}
    (h : place snapshot config started now cost = .on executor) :
    config.capReached started = false ∧ ∃ c ∈ snapshot, c.executor = executor ∧
      c.exceededBy cost = false ∧ c.mayStart config now = true := by
  obtain ⟨hcap, c, hid, hpick⟩ := place_eq_on_iff.1 h
  have hc := pick_mem hpick
  simp only [List.mem_filter, Bool.not_eq_eq_eq_not, Bool.not_true] at hc
  exact ⟨hcap, c, hc.1.1, hid, hc.1.2, hc.2⟩

/-- A run can be placed exactly when the job cap is not reached and an executor has room for it and
may start one more run. -/
theorem exists_place_on_iff {snapshot : Snapshot κ} {started : Nat} {cost : κ} :
    (∃ executor, place snapshot config started now cost = .on executor) ↔
      config.capReached started = false ∧ ∃ c ∈ snapshot, c.exceededBy cost = false ∧
        c.mayStart config now = true := by
  constructor
  · rintro ⟨executor, hplace⟩
    obtain ⟨hfree, c, hc, -, hroom, hstart⟩ := place_eq_on hplace
    exact ⟨hfree, c, hc, hroom, hstart⟩
  · rintro ⟨hfree, c, hc, hroom, hstart⟩
    have hmem : c ∈ (snapshot.filter (!·.exceededBy cost)).filter (·.mayStart config now) :=
      List.mem_filter.2 ⟨List.mem_filter.2 ⟨hc, by simp [hroom]⟩, hstart⟩
    obtain ⟨least, hpick⟩ := pick_of_mem hmem
    exact ⟨least.executor, place_eq_on_iff.2 ⟨hfree, least, rfl, hpick⟩⟩

theorem plan_stop {job : String} {reason : StopReason}
    (h : (plan registry config now).action = some (.stop job reason)) :
    plannedStop? registry config now = some (.stop job reason) := by
  unfold plan at h
  split at h
  · rename_i action hstop
    obtain rfl := Option.some.inj h
    exact hstop
  · simp only at h
    split at h <;> cases h

/-- A stop comes before all else. -/
theorem plan_of_plannedStop? {action : Action}
    (h : plannedStop? registry config now = some action) :
    plan registry config now = { action := some action } := by
  unfold plan
  rw [h]

/-- All that a plan with a start says: the first run of the waiting line for which there is a place
goes there, and for some of those before it there is no room.  Nothing has to stop then. -/
theorem plan_eq_of_start {job executor : String}
    (h : (plan registry config now).action = some (.start job executor)) :
    plannedStop? registry config now = none ∧
      ∃ before run after, waitingLine registry.allRuns = before ++ run :: after ∧
        run.job.id = job ∧
        place (Snapshot.ofRegistry registry now config.aliveWindow) config registry.startedCount
          now run.job.cost = .on executor ∧
        (∀ run ∈ before, ∀ executor,
          place (Snapshot.ofRegistry registry now config.aliveWindow) config
            registry.startedCount now run.job.cost ≠ .on executor) ∧
        plan registry config now =
          { action := some (.start job executor)
            unplaceable := roomless (fun run => place
              (Snapshot.ofRegistry registry now config.aliveWindow) config registry.startedCount
              now run.job.cost) before } := by
  unfold plan at h ⊢
  split at h
  · rename_i action hstop
    obtain ⟨_, _, rfl⟩ := plannedStop?_stop hstop
    cases h
  · rename_i hstop
    refine ⟨hstop, ?_⟩
    simp only at h ⊢
    split at h
    · rename_i unplaceable run e hplaced
      simp only [Option.some.injEq, Action.start.injEq] at h
      obtain ⟨rfl, rfl⟩ := h
      obtain ⟨before, after, hline, hon, hall, rfl⟩ := firstPlaced_eq_some_iff.1 hplaced
      exact ⟨before, run, after, hline, rfl, hon, hall, rfl⟩
    · cases h

/-- A planned start: nothing has to stop, and the first run of the waiting line for which there is
a place goes there. -/
theorem plan_start {job executor : String}
    (h : (plan registry config now).action = some (.start job executor)) :
    plannedStop? registry config now = none ∧
      ∃ before run after, waitingLine registry.allRuns = before ++ run :: after ∧
        run.job.id = job ∧
        place (Snapshot.ofRegistry registry now config.aliveWindow) config registry.startedCount
          now run.job.cost = .on executor ∧
        ∀ run ∈ before, ∀ executor,
          place (Snapshot.ofRegistry registry now config.aliveWindow) config
            registry.startedCount now run.job.cost ≠ .on executor := by
  obtain ⟨hstop, before, run, after, hline, hid, hon, hall, -⟩ := plan_eq_of_start h
  exact ⟨hstop, before, run, after, hline, hid, hon, hall⟩

/-- A planned start is for a registered pending run, on an executor that has room for it. -/
theorem plan_start_pending {registry : Registry κ} {config : Config κ} {job executor : String}
    {run : Run κ} (h : registry.Sound) (hrun : registry.runs.get? job = some run)
    (hplan : (plan registry config now).action = some (.start job executor)) :
    run.isPending = true ∧ plannedStop? registry config now = none ∧
      place (Snapshot.ofRegistry registry now config.aliveWindow) config registry.startedCount
        now run.job.cost = .on executor := by
  obtain ⟨hstop, before, run', after, hline, hid, hon, -⟩ := plan_start hplan
  have hmem : run' ∈ waitingLine registry.allRuns := by simp [hline]
  obtain ⟨hall, hpending⟩ := mem_waitingLine.1 hmem
  have hget := h.get?_of_mem hall
  rw [hid, hrun] at hget
  obtain rfl := Option.some.inj hget
  exact ⟨hpending, hstop, hon⟩

/-- Nothing is planned exactly when nothing has to stop and no pending run can be placed. -/
theorem plan_idle :
    (plan registry config now).action = none ↔
      plannedStop? registry config now = none ∧
        ∀ run ∈ waitingLine registry.allRuns, ∀ executor,
          place (Snapshot.ofRegistry registry now config.aliveWindow) config
            registry.startedCount now run.job.cost ≠ .on executor := by
  unfold plan
  split
  · rename_i action hstop
    simp [hstop]
  · rename_i hstop
    simp only [hstop, true_and]
    split
    · rename_i unplaceable run e hplaced
      obtain ⟨before, after, hline, hon, -⟩ := firstPlaced_eq_some_iff.1 hplaced
      simp only [reduceCtorEq, false_iff]
      exact fun hall => hall run (by rw [hline]; simp) e hon
    · rename_i unplaceable hplaced
      simpa using (firstPlaced_eq_none_iff.1 hplaced).1

/-- All that a plan without action says: the pending jobs without room, and when to look again. -/
theorem plan_eq_of_idle (h : (plan registry config now).action = none) :
    plan registry config now =
      let snapshot := Snapshot.ofRegistry registry now config.aliveWindow
      let line := waitingLine registry.allRuns
      { unplaceable := roomless
          (fun run => place snapshot config registry.startedCount now run.job.cost) line
        wakeAt := nextWake registry snapshot config now (!line.isEmpty) } := by
  obtain ⟨hstop, hline⟩ := plan_idle.1 h
  have hplaced := firstPlaced_eq_none_iff.2 ⟨hline, rfl⟩
  unfold plan
  simp only [hstop, hplaced]

omit [Quantity κ] in
theorem mem_roomless {placed : Run κ → Placement} {line : List (Run κ)} {job : String}
    (h : job ∈ roomless placed line) : ∃ run ∈ line, run.job.id = job := by
  simp only [roomless, List.mem_map, List.mem_filter] at h
  obtain ⟨run, ⟨hrun, -⟩, hid⟩ := h
  exact ⟨run, hrun, hid⟩

/-- The jobs of which a plan says that there is no room for them are registered and pending. -/
theorem plan_unplaceable_pending (h : registry.Sound) {job : String}
    (hjob : job ∈ (plan registry config now).unplaceable) :
    ∃ run, registry.runs.get? job = some run ∧ run.isPending = true := by
  obtain ⟨run, hrun, rfl⟩ : ∃ run ∈ waitingLine registry.allRuns, run.job.id = job := by
    unfold plan at hjob
    split at hjob
    · cases hjob
    simp only at hjob
    split at hjob
    · rename_i unplaceable first executor hplaced
      obtain ⟨before, after, hline, -, -, rfl⟩ := firstPlaced_eq_some_iff.1 hplaced
      obtain ⟨run, hrun, hid⟩ := mem_roomless hjob
      exact ⟨run, by rw [hline]; exact List.mem_append_left _ hrun, hid⟩
    · rename_i unplaceable hplaced
      obtain ⟨-, rfl⟩ := firstPlaced_eq_none_iff.1 hplaced
      exact mem_roomless hjob
  obtain ⟨hall, hpending⟩ := mem_waitingLine.1 hrun
  exact ⟨run, h.get?_of_mem hall, hpending⟩

/-- There is nothing to plan when nothing is registered. -/
theorem plan_empty : plan (∅ : Registry κ) config now = {} := by
  have hruns : (∅ : Registry κ).allRuns = [] := rfl
  have hidle : (plan (∅ : Registry κ) config now).action = none := by
    refine plan_idle.2 ⟨plannedStop?_eq_none_iff.2 ?_, by simp [hruns, waitingLine, lineUp]⟩
    simp [hruns, overCap?, balanceMove?, pick]
  have hexecutors : (∅ : Registry κ).executors = [] := rfl
  rw [plan_eq_of_idle hidle]
  cases hw : config.aliveWindow <;>
    simp [hruns, hexecutors, waitingLine, lineUp, roomless, nextWake, dueInstants,
      aliveDeadlines, hw]

end Dispatch
