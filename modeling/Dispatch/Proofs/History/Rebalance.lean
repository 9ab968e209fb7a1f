import Dispatch.Proofs.History.Replay
import Dispatch.Proofs.History.Turn
import Dispatch.Proofs.History.Sound
import Dispatch.Proofs.Plan.Balance

/-!
# What becomes of a job stopped for balance

A running job is stopped when it is worth moving, and placed anew once its stop is over.  This
module follows the loop from the one turn to the other, when nothing else happens in between and no
time passes.

* `Rebalances` : a job is stopped for balance, and started next on an executor;
* `Registry.Vacating` : how little the registry changes meanwhile;
* `rebalance_returns_iff` : **the job is started elsewhere exactly when its former executor has no
  room for it or is outbid**, as the planner saw the executors when it stopped the job, less the
  cost of the job.  It is always so when that cost is below the difference worth a move;
* `rebalance_returns` : a history in which a dearer job is started where it was.
-/

namespace Dispatch

open Scheduler

variable {κ : Type}

/-- Nothing happens at `now` but turns that the loop takes by itself, and the success of the stop of
one job. -/
inductive Advance.GoesOn (now : Instant) (job : String) : Advance κ → Prop
  | refresh : GoesOn now job (.turn .refresh now now now)
  | timer : GoesOn now job (.turn .timer now now now)
  | stopped (c : Completion) (kind : c.kind = .stop) (target : c.job = job)
      (result : c.result = .ok ()) : GoesOn now job (.turn (.completion c) now now now)

variable [Quantity κ]

/-- In a history a job is stopped for balance at `now`, with the scheduler at `left` when this is
planned; and while nothing else happens and no time passes, it is started next on an executor. -/
inductive Rebalances (config : Config κ) (now : Instant) (job : String) (executor : String) :
    Scheduler κ → Prop
  | intro {s s₁ s₂ s₃ : Session κ} {e : Event κ} {heard : Instant} {target : String}
      {a : Advance κ} (reach : Reachable config s)
      (stops : (Advance.turn e heard now now).planned s.scheduler =
        some (.stop job (.loadBalance target)))
      (stop : s.Step (.turn e heard now now) s₁)
      (waits : s₁.LeadsBy (fun s a => a.GoesOn now job ∧
        ∀ executor, a.planned s ≠ some (.start job executor)) s₂)
      (goesOn : a.GoesOn now job) (starts : a.planned s₂.scheduler = some (.start job executor))
      (start : s₂.Step a s₃) :
      Rebalances config now job executor (s.scheduler.accept e heard).1

namespace Registry

/-- What is known of a registry when a stop for balance is planned. -/
structure Settled (left : Registry κ) (config : Config κ) (now : Instant) : Prop where
  sound : left.Sound
  stay : ∀ run ∈ left.allRuns, run.mustStop? left
    (Snapshot.ofRegistry left now config.aliveWindow) config (unrunCost left.allRuns) now = none
  within : overCap? left.allRuns left.startedCount config = none
  ran : ∀ run ∈ left.allRuns, run.ranAt.isSome = true

/-- The registry is as it was when the job was stopped, but that the stop may be over, and that
other runs may have begun to stop which are not on any usable executor. -/
structure Vacating (left : Registry κ) (job : String) (run : Run κ) (definition : Job κ)
    (now : Instant) (r : Registry κ) : Prop where
  executors : r.executors = left.executors
  jobs : r.jobs = left.jobs
  carried : ∀ e ∈ left.executors, e.paused = false →
    r.carriedBy e.id = (left.modifyRun job fun _ => run.stop false now).carriedBy e.id
  started : r.startedCount ≤ left.startedCount
  others : ∀ id run', id ≠ job → r.runs.get? id = some run' →
    run'.stopping = true ∨ left.runs.get? id = some run'
  own : ∃ run', r.runs.get? job = some run' ∧
    (run'.stopping = true ∧ run'.removing = false ∨
      run'.isPending = true ∧ run'.job = definition)

variable {left r : Registry κ} {config : Config κ} {now t : Instant} {job id : String}
  {run run' : Run κ} {definition : Job κ}

omit [Quantity κ] in
theorem isCarriedBy_of_unstarted (h : run.startedAt = none) (executor : String) :
    run.isCarriedBy executor = false := by
  simp [Run.isCarriedBy, h]

namespace Vacating

omit [Quantity κ] in
/-- The registry just after the job has begun to stop. -/
theorem begin (hrun : left.runs.get? job = some run) :
    left.Vacating job run definition now (left.modifyRun job fun _ => run.stop false now) where
  executors := rfl
  jobs := rfl
  carried _ _ _ := rfl
  started := startedCount_modifyRun_le hrun rfl
  others id run' hne hrun' := by
    rw [get?_modifyRun hrun, if_neg hne] at hrun'
    exact .inr hrun'
  own := ⟨run.stop false now, by rw [get?_modifyRun hrun, if_pos rfl], .inl ⟨rfl, rfl⟩⟩

/-- The stop of the job comes to its end. -/
theorem settle (h : left.Vacating job run definition now r) (hsound : r.Sound)
    (hdef : left.jobs.get? job = some definition) (hrun' : r.runs.get? job = some run')
    (hst : run'.stopping = true) :
    left.Vacating job run definition now
      (r.modifyRun job fun _ => run'.settle ((r.jobs.get? job).getD run'.job)) := by
  have hunstarted := (hsound.shaped hrun').unstarted_of_stopping hst
  have hunstarted' : (run'.settle ((r.jobs.get? job).getD run'.job)).startedAt = none := hunstarted
  refine ⟨h.executors, h.jobs, fun e he hpaused => ?_, ?_, fun id run₁ hne hrun₁ => ?_, ?_⟩
  · rw [← h.carried e he hpaused]
    exact carriedBy_modifyRun hrun' (isCarriedBy_of_unstarted hunstarted _)
      (isCarriedBy_of_unstarted hunstarted' _)
  · exact (startedCount_modifyRun_le hrun' hunstarted').trans h.started
  · rw [get?_modifyRun hrun', if_neg hne] at hrun₁
    exact h.others id run₁ hne hrun₁
  · refine ⟨_, by rw [get?_modifyRun hrun', if_pos rfl], .inr ⟨rfl, ?_⟩⟩
    simp [Run.settle, h.jobs, hdef]

/-- Another run begins to stop, off the usable executors. -/
theorem stopOther (h : left.Vacating job run definition now r) (hleft : left.Sound)
    (hne : id ≠ job) (hrun' : r.runs.get? id = some run') {executor : String}
    (hexec : run'.executor = some executor)
    (hpaused : ∀ e, left.executor? executor = some e → e.paused = true) :
    left.Vacating job run definition now (r.modifyRun id fun _ => run'.stop false t) := by
  refine ⟨h.executors, h.jobs, fun e he hopen => ?_, ?_, fun id' run₁ hne' hrun₁ => ?_, ?_⟩
  · rw [← h.carried e he hopen]
    refine carriedBy_modifyRun hrun' ?_ (isCarriedBy_of_unstarted rfl _)
    have hother : executor ≠ e.id := by
      rintro rfl
      simp [hpaused e (hleft.executor?_eq he)] at hopen
    simp [Run.isCarriedBy, Run.isBoundTo, hexec, hother]
  · exact (startedCount_modifyRun_le hrun' rfl).trans h.started
  · rw [get?_modifyRun hrun'] at hrun₁
    split at hrun₁
    · obtain rfl := Option.some.inj hrun₁
      exact .inl rfl
    · exact h.others id' run₁ hne' hrun₁
  · obtain ⟨own, hown, hshape⟩ := h.own
    exact ⟨own, by rw [get?_modifyRun hrun', if_neg hne.symm, hown], hshape⟩

end Vacating

/-- **All that is planned meanwhile** is the start of the job, or the stop of another run that is on
a paused executor. -/
theorem Vacating.planned (h : left.Vacating job run definition now r) (hsound : r.Sound)
    (hsettled : left.Settled config now) {action : Action}
    (hplan : (plan r config now).action = some action) :
    (∃ executor, action = .start job executor) ∨
      ∃ id reason run' executor, action = .stop id reason ∧ id ≠ job ∧
        r.runs.get? id = some run' ∧ run'.stopping = false ∧ run'.executor = some executor ∧
        ∀ e, left.executor? executor = some e → e.paused = true := by
  obtain ⟨own, hown, hstate⟩ := h.own
  have hownran : own.ranAt = none := by
    rcases hstate with ⟨hst, -⟩ | ⟨hpending, -⟩
    · cases hsound.shaped hown with
      | stopping _ _ _ hr => exact hr
      | _ => simp_all
    · have hexec := (Run.isPending_iff.1 hpending).1
      cases hsound.shaped hown with
      | pending _ _ _ hr => exact hr
      | _ => simp_all
  cases action with
  | start id executor =>
    left
    obtain ⟨-, before, run', after, hline, rfl, -⟩ := plan_start hplan
    obtain ⟨hmem, hpending⟩ := mem_waitingLine.1
      (show run' ∈ waitingLine r.allRuns by simp [hline])
    have hget := hsound.get?_of_mem hmem
    by_cases hid : run'.job.id = job
    · exact ⟨executor, by rw [hid]⟩
    -- any other run was running when the job was stopped, or is being stopped
    exfalso
    obtain ⟨hexec, hst⟩ := Run.isPending_iff.1 hpending
    rcases h.others _ run' hid hget with hstopping | hleft
    · simp [hst] at hstopping
    · have hshape := hsettled.sound.shaped hleft
      have hran := hsettled.ran run' (Table.mem_values hleft)
      have hbound := (hshape.of_started (hshape.started_of_ran hran)).1
      simp [hexec] at hbound
  | stop id reason =>
    right
    generalize haction : Action.stop id reason = action at hplan
    have hstop : plannedStop? r config now = some action := by
      subst haction
      exact plan_stop hplan
    cases plannedStop?_cases hstop with
    | forced run' reason' mem must =>
      obtain ⟨rfl, rfl⟩ := Action.stop.inj haction
      obtain ⟨⟨executor, hexec⟩, hst, -⟩ := Run.of_mustStop?_eq_some must
      have hget := hsound.get?_of_mem mem
      have hne : run'.job.id ≠ job := by
        intro hid
        rw [hid, hown] at hget
        obtain rfl := Option.some.inj hget
        rcases hstate with ⟨hstopping, -⟩ | ⟨hpending, -⟩
        · simp [hst] at hstopping
        · simp [(Run.isPending_iff.1 hpending).1] at hexec
      refine ⟨_, _, run', executor, rfl, hne, hget, hst, hexec, fun e he => ?_⟩
      -- on an executor that is not paused, the run could stay before and can stay now
      have hleft := (h.others _ run' hne hget).resolve_left (by simp [hst])
      by_contra hopen
      have hsame : run'.mustStop? r (Snapshot.ofRegistry r now config.aliveWindow) config
          (unrunCost r.allRuns) now =
          run'.mustStop? left (Snapshot.ofRegistry left now config.aliveWindow) config
            (unrunCost left.allRuns) now := by
        refine Run.mustStop?_congr h.executors h.jobs fun executor' e' hexec' he' => ?_
        obtain rfl : executor = executor' := by simpa [hexec] using hexec'
        obtain rfl : e = e' := by simpa [he] using he'
        simpa using hopen
      rw [must, hsettled.stay run' (Table.mem_values hleft)] at hsame
      cases hsame
    | surplus run' surplus =>
      have hwithin := hsettled.sound.overCap?_eq_none_iff.1 hsettled.within
      have hnone : overCap? r.allRuns r.startedCount config = none := by
        refine hsound.overCap?_eq_none_iff.2 (hwithin.imp_right fun hle => ?_)
        exact h.started.trans hle
      rw [hnone] at surplus
      cases surplus
    | balancing move _ _ ran =>
      have hran := ran own (Table.mem_values hown)
      simp [hownran] at hran

end Registry

section Continuation

variable {left : Registry κ} {config : Config κ} {now : Instant} {job executor : String}
  {run : Run κ} {definition : Job κ} {s : Scheduler κ} {a : Advance κ}

/-- What is taken in meanwhile is at most the end of the stop of the job. -/
theorem Advance.GoesOn.takeIn_vacating (hgo : a.GoesOn now job) (hsound : s.registry.Sound)
    (hdef : left.jobs.get? job = some definition)
    (h : left.Vacating job run definition now s.registry) :
    left.Vacating job run definition now (a.takeIn s).registry ∧
      (a.takeIn s).config = s.config := by
  cases hgo with
  | refresh => exact ⟨h, rfl⟩
  | timer => exact ⟨h, rfl⟩
  | stopped c kind target result =>
    subst target
    simp only [Advance.takeIn, accept]
    rcases complete_eq s c now with ⟨-, heq⟩ | ⟨d, hd, hdoes⟩
    · rw [heq]
      exact ⟨h, rfl⟩
    obtain ⟨run', hrun', -, hreturns⟩ := effect?_eq_some_iff.1 hd
    obtain ⟨own, hown, hstate⟩ := h.own
    obtain rfl : run' = own := by simpa [hrun'] using hown
    cases hreturns with
    | confirm hstart => simp [kind] at hstart
    | release _ hstart => simp [kind] at hstart
    | finish _ stopping removing =>
      rcases hstate with ⟨-, hstays⟩ | ⟨hpending, -⟩
      · simp [removing] at hstays
      · simp [(Run.isPending_iff.1 hpending).2] at stopping
    | settle _ stopping _ =>
      generalize s.complete c now = s' at hdoes ⊢
      cases hdoes with
      | settle hrun'' =>
        obtain rfl := Option.some.inj (hrun'.symm.trans hrun'')
        simp only [report_registry, put_registry, noteStop_registry, report_config, put_config,
          noteStop_config]
        exact ⟨h.settle hsound hdef hrun' stopping, rfl⟩

/-- An advance that does not start the job leaves it on its way off. -/
theorem Advance.GoesOn.apply_vacating (hgo : a.GoesOn now job) (hsound : s.registry.Sound)
    (hsettled : left.Settled s.config now) (hdef : left.jobs.get? job = some definition)
    (h : left.Vacating job run definition now s.registry)
    (hwaits : ∀ executor, a.planned s ≠ some (.start job executor)) :
    left.Vacating job run definition now (a.apply s).registry ∧
      (a.apply s).config = s.config := by
  obtain ⟨htaken, hconf⟩ := hgo.takeIn_vacating hsound hdef h
  have hsound' : (a.takeIn s).registry.Sound := Advance.takeIn_sound hsound
  obtain ⟨e, rfl⟩ : ∃ e, a = .turn e now now now := by cases hgo <;> exact ⟨_, rfl⟩
  simp only [Advance.takeIn] at htaken hconf hsound'
  refine ⟨?_, (turnAt_eq s e now now now).2.1.trans hconf⟩
  cases hplan : (plan (s.accept e now).1.registry (s.accept e now).1.config now).action with
  | none =>
    rw [Advance.apply, turnAt_rests hplan]
    exact htaken
  | some action =>
    rw [← hconf] at hsettled
    rcases htaken.planned hsound' hsettled hplan with ⟨executor, rfl⟩ |
      ⟨id, reason, run', executor, rfl, hne, hrun', hst, hexec, hpaused⟩
    · exact absurd hplan (hwaits executor)
    · rw [Advance.apply, turnAt_stops hplan hrun' hst hexec]
      exact htaken.stopOther hsettled.sound hne hrun' hexec hpaused

/-- The two ends of the move: the runs when the job is stopped, and where it is placed then. -/
theorem Rebalances.spec {left : Scheduler κ} (h : Rebalances config now job executor left) :
    ∃ run definition r move, left.registry.Settled left.config now ∧
      left.registry.runs.get? job = some run ∧ left.registry.jobs.get? job = some definition ∧
      left.registry.Vacating job run definition now r ∧ move.run = run ∧
      balanceMove? left.registry.allRuns
        (Snapshot.ofRegistry left.registry now left.config.aliveWindow) left.config = some move ∧
      place (Snapshot.ofRegistry r now left.config.aliveWindow) left.config r.startedCount now
        definition.cost = .on executor := by
  cases h with
  | @intro s s₁ s₂ s₃ e heard target a reach stops stop waits goesOn starts start =>
    have hsound : (s.scheduler.accept e heard).1.registry.Sound :=
      Advance.takeIn_sound (a := .turn e heard now now) reach.sound
    have hreach₁ : Reachable config s₁ := .step reach trivial stop
    obtain ⟨-, -, rest, -, rfl⟩ := stop
    obtain ⟨hstay, hwithin, hran, move, hjob, hbest⟩ := plannedStop?_balance (plan_stop stops)
    have hsettled : (s.scheduler.accept e heard).1.registry.Settled
        (s.scheduler.accept e heard).1.config now := ⟨hsound, hstay, hwithin, hran⟩
    obtain ⟨hmem, hst, current, -, -, -, hexec, -⟩ := balanceMove?_spec hbest
    have hrun := hsound.get?_of_mem hmem
    rw [hjob] at hrun
    obtain ⟨definition, hdef⟩ := hsound.job_of_run hrun
    -- from the stop on, nothing changes but what `Vacating` allows
    have hturn := turnAt_eq s.scheduler e heard now now
    have hbegin : (s.scheduler.turnAt e heard now now).registry =
        (s.scheduler.accept e heard).1.registry.modifyRun job fun _ => move.run.stop false now :=
      turnAt_stops stops hrun hst hexec
    have hinv := waits.invariant (I := fun s' =>
        s'.scheduler.config = (s.scheduler.accept e heard).1.config ∧
          (s.scheduler.accept e heard).1.registry.Vacating job move.run definition now
            s'.scheduler.registry) ?_ ?_
    · obtain ⟨hconf, hvacating⟩ := hinv
      have hsound₂ := (waits.reachable hreach₁).sound
      obtain ⟨htaken, hconf'⟩ := goesOn.takeIn_vacating hsound₂ hdef hvacating
      have hsound₃ : (a.takeIn s₂.scheduler).registry.Sound := Advance.takeIn_sound hsound₂
      obtain ⟨e', rfl⟩ : ∃ e', a = .turn e' now now now := by cases goesOn <;> exact ⟨_, rfl⟩
      simp only [Advance.takeIn] at htaken hconf' hsound₃
      simp only [Advance.planned, hconf', hconf] at starts
      obtain ⟨own, hown, hstate⟩ := htaken.own
      obtain ⟨hpending, -, hplace⟩ := plan_start_pending hsound₃ hown starts
      have hcost : own.job = definition := by
        rcases hstate with ⟨hstopping, -⟩ | ⟨-, hjob⟩
        · simp [(Run.isPending_iff.1 hpending).2] at hstopping
        · exact hjob
      rw [hcost] at hplace
      exact ⟨move.run, definition, _, move, hsettled, hrun, hdef, htaken, rfl, hbest, hplace⟩
    · refine ⟨hturn.2.1, ?_⟩
      simp only [Session.after, Advance.apply, hbegin]
      exact .begin hrun
    · rintro s₁ b s₂ hleads ⟨hconf, hvacating⟩ ⟨hgo, hnot⟩ ⟨-, -, rest, -, rfl⟩
      have hsound₁ := (hleads.reachable hreach₁).sound
      rw [← hconf] at hsettled ⊢
      obtain ⟨hv, hc⟩ := hgo.apply_vacating hsound₁ hsettled hdef hvacating hnot
      exact ⟨hc, hv⟩

/-- A move in which the stop of the job is over at once. -/
theorem Rebalances.at_once {s : Session κ} {e : Event κ} (target : String) (call : Call κ)
    {earlier rest : List (Call κ)} (reach : Reachable config s)
    (due : (Advance.turn e now now now).Due s.scheduler) (follows : s.now ≤ now)
    (takes : Takes s.underWay (Advance.turn e now now now).completion? earlier)
    (stops : (Advance.turn e now now now).planned s.scheduler =
      some (.stop job (.loadBalance target)))
    (serving : (s.after (.turn e now now now) earlier).scheduler.stage = .serving)
    (calls : (s.after (.turn e now now now) earlier).underWay = call :: rest)
    (kind : call.kind = .stop) (own : call.run.job.id = job)
    (starts : (Advance.turn (.completion (call.completion (.ok ()))) now now now).planned
      (s.after (.turn e now now now) earlier).scheduler = some (.start job executor)) :
    Rebalances config now job executor (s.scheduler.accept e now).1 :=
  .intro reach stops
    ⟨due, ⟨follows, Int.le_refl now, Int.le_refl now⟩, earlier, takes, rfl⟩ .refl
    (.stopped _ kind own rfl) starts
    ⟨serving, ⟨Int.le_refl now, Int.le_refl now, Int.le_refl now⟩, rest,
      ⟨[], call, rest, _, calls, rfl, rfl⟩, rfl⟩

end Continuation

/-- **A job stopped for balance is started elsewhere exactly when its former executor has no room
for it or is outbid.**  The executors are taken as the planner saw them when it stopped the job, the
former one (`here`) without the cost of the job.  When that cost is below the difference worth a
move, less what the tolerance makes of the capacity, the job always goes elsewhere.

Costs and capacities are exact here.  With rounding, the load that is added up again without the run
need not be the former load less its cost, and then `here` is not what the planner sees next. -/
theorem rebalance_returns_iff {config : Config ℚ} {now : Instant} {job executor : String}
    {left : Scheduler ℚ} (h : Rebalances config now job executor left) :
    ∃ run definition before here after, left.registry.runs.get? job = some run ∧
      run.executor = some here.executor ∧ left.registry.jobs.get? job = some definition ∧
      Snapshot.ofRegistry left.registry now left.config.aliveWindow = before ++ here :: after ∧
      (executor ≠ here.executor ↔
        (here.without run.job.cost).exceededBy definition.cost = true ∨
          (here.without run.job.cost).Outbid before after definition.cost) ∧
      (definition.cost ≤ run.job.cost →
        run.job.cost + Quantity.tolerance * here.capacity < left.config.balanceAt →
        executor ≠ here.executor) := by
  obtain ⟨run, definition, r, move, hsettled, hrun, hdef, hvacating, rfl, hbest, hplace⟩ := h.spec
  obtain ⟨-, hst, here, hhere, other, hother, hon, hcap, hmove⟩ := balanceMove?_spec hbest
  obtain ⟨before, after, hleft, hgone, hids, hquiet⟩ :=
    ofRegistry_vacated (f := fun _ => move.run.stop false now) hsettled.sound hvacating.executors
      hsettled.ran hrun hst (fun _ => rfl) hvacating.carried hhere hon
  have hquiet' : ∀ c ∈ before ++ here.without move.run.job.cost :: after,
      c.startingCount = 0 ∧ c.lastStart = none := by
    intro c hc
    rcases List.mem_append.1 hc with hc | hc
    · exact hquiet c (List.mem_append_left _ hc)
    rcases List.mem_cons.1 hc with rfl | hc
    · exact hquiet here (by simp)
    · exact hquiet c (List.mem_append_right _ (List.mem_cons_of_mem _ hc))
  rw [hgone] at hplace
  have hiff := place_returns_iff hquiet' hids hplace
  refine ⟨move.run, definition, before, here, after, hrun, hon, hdef, hleft, hiff, ?_⟩
  intro hcost hsmall
  -- the target for the sake of which the job was stopped outbids the former executor
  obtain ⟨hne, -, hroom, -, -⟩ := moveTo?_eq_some hmove
  have hlt := moveTo?_usedRatio_lt hmove (not_le.1 hcap) hsmall
  have hfits : other.exceededBy definition.cost = false := by
    rw [Capacity.exceededBy_eq_false_iff] at hroom ⊢
    linarith
  rw [hleft] at hother
  refine hiff.2 (.inr ?_)
  rcases List.mem_append.1 hother with hin | hin
  · exact .inl ⟨other, hin, hfits, hlt.le⟩
  rcases List.mem_cons.1 hin with rfl | hin
  · exact absurd rfl hne
  · exact .inr ⟨other, hin, hfits, hlt⟩

/-- Settings under which a difference in cost is worth a move. -/
def evensOut (difference : ℚ) : Config ℚ := { balanceAt := difference, runningOnStart := true }

/-- Another executor is added. -/
def joined : Event ℚ := .request 0 (.addExecutor { id := "B", capacity := 10 })

/-- Three jobs of cost 1 run on an executor of capacity 10. -/
def crowded : Session ℚ :=
  (Session.play (fun _ _ => true) { scheduler := { config := evensOut 2 }, now := 0 }
    [(0, .request (.addExecutor { id := "A", capacity := 10 })),
      (0, .request (.addJob { id := "j1", cost := 1 })),
      (0, .answer 0 (.ok ())),
      (0, .request (.addJob { id := "j2", cost := 1 })),
      (0, .answer 0 (.ok ())),
      (0, .request (.addJob { id := "j3", cost := 1 })),
      (0, .answer 0 (.ok ()))]).get (by decide +kernel)

/-- The call by which the first of them is stopped. -/
def crowdedStop : Call ℚ :=
  (crowded.after (.turn joined 0 0 0) []).underWay.head (by decide +kernel)

/-- The job goes to the executor that has joined, as it must: its cost is below the difference. -/
theorem rebalance_returns_iff_crowded :
    Rebalances (evensOut 2) 0 "j1" "B" (crowded.scheduler.accept joined 0).1 ∧
      ∃ run definition, ∃ here : Capacity ℚ, ∃ before after : Snapshot ℚ,
        (crowded.scheduler.accept joined 0).1.registry.runs.get? "j1" = some run ∧
        run.executor = some here.executor ∧
        (crowded.scheduler.accept joined 0).1.registry.jobs.get? "j1" = some definition ∧
        definition.cost ≤ run.job.cost ∧
        run.job.cost + Quantity.tolerance * here.capacity <
          (crowded.scheduler.accept joined 0).1.config.balanceAt ∧
        "B" ≠ here.executor ∧
        ((here.without run.job.cost).exceededBy definition.cost = true ∨
          (here.without run.job.cost).Outbid before after definition.cost) := by
  have hreach : Reachable (evensOut 2) crowded :=
    Session.play_reachedBy (fun _ _ _ => trivial) (.start 0 (by decide +kernel))
      (Option.some_get _).symm
  have hnone : crowded.underWay = [] := by
    rw [← List.length_eq_zero_iff]
    decide +kernel
  have hmoves : Rebalances (evensOut 2) 0 "j1" "B" (crowded.scheduler.accept joined 0).1 :=
    .at_once "B" crowdedStop hreach (by decide +kernel) (by decide +kernel) hnone.symm
      (by decide +kernel) (by decide +kernel) (List.cons_head_tail _).symm (by decide +kernel)
      (by decide +kernel) (by decide +kernel)
  obtain ⟨run, definition, before, here, after, hrun, hon, hdef, hleft, hiff, hsmall⟩ :=
    rebalance_returns_iff hmoves
  have hran : ((crowded.scheduler.accept joined 0).1.registry.runs.get? "j1").map
      (·.job.cost) = some 1 := by decide +kernel
  have hknown : ((crowded.scheduler.accept joined 0).1.registry.jobs.get? "j1").map (·.cost) =
      some 1 := by decide +kernel
  have hwide : ∀ c ∈ Snapshot.ofRegistry (crowded.scheduler.accept joined 0).1.registry 0
      (crowded.scheduler.accept joined 0).1.config.aliveWindow, c.capacity = 10 := by
    decide +kernel
  have hcost : run.job.cost = 1 := by simpa [hrun] using hran
  have hcost' : definition.cost = 1 := by simpa [hdef] using hknown
  have hcap : here.capacity = 10 := hwide here (by simp [hleft])
  have hbelow : run.job.cost + Quantity.tolerance * here.capacity <
      (crowded.scheduler.accept joined 0).1.config.balanceAt := by
    rw [hcost, hcap]
    decide +kernel
  have hle : definition.cost ≤ run.job.cost := by rw [hcost, hcost']
  have hne := hsmall hle hbelow
  exact ⟨hmoves, run, definition, here, before, after, hrun, hon, hdef, hle, hbelow, hne,
    hiff.1 hne⟩

/-- A job of cost 5 runs on an executor of capacity 10. -/
def lone : Session ℚ :=
  (Session.play (fun _ _ => true) { scheduler := { config := evensOut 1 }, now := 0 }
    [(0, .request (.addExecutor { id := "A", capacity := 10 })),
      (0, .request (.addJob { id := "j", cost := 5 })),
      (0, .answer 0 (.ok ()))]).get (by decide +kernel)

/-- The call by which it is stopped when another executor has joined. -/
def loneStop : Call ℚ :=
  (lone.after (.turn joined 0 0 0) []).underWay.head (by decide +kernel)

/-- The job is started where it was: without it, both executors are empty, and the former one was
added first. -/
theorem rebalance_returns :
    Rebalances (evensOut 1) 0 "j" "A" (lone.scheduler.accept joined 0).1 ∧
      ((lone.scheduler.accept joined 0).1.registry.runs.get? "j").map (·.executor) =
        some (some "A") := by
  have hreach : Reachable (evensOut 1) lone :=
    Session.play_reachedBy (fun _ _ _ => trivial) (.start 0 (by decide +kernel))
      (Option.some_get _).symm
  have hnone : lone.underWay = [] := by
    rw [← List.length_eq_zero_iff]
    decide +kernel
  refine ⟨?_, by decide +kernel⟩
  exact .at_once "B" loneStop hreach (by decide +kernel) (by decide +kernel) hnone.symm
    (by decide +kernel) (by decide +kernel) (List.cons_head_tail _).symm (by decide +kernel)
    (by decide +kernel) (by decide +kernel)

end Dispatch
