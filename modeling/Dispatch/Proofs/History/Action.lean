import Dispatch.Proofs.History.Drain
import Dispatch.Proofs.Plan.Balance

/-!
# What follows when an event is taken in

An advance first takes in what it starts with, and then looks at the plan or, once the loop was
left, at the runs that are still placed.  This module says what the second part does, exactly.

* `Scheduler.Enacts`, `Scheduler.reconcile_enacts` : what is left by one look at the plan, by what
  the plan names.  **No planned action misfires**;
* `Scheduler.Pursues`, `Advance.pursues` : **a run that changes is the run of a call**, which stops
  it when it was placed and starts it when it was pending.
-/

namespace Dispatch

open Scheduler

variable {κ : Type}

namespace Registry.Sound

variable [Quantity κ] {r : Registry κ} {config : Config κ} {now : Instant} {job : String}
  {reason : StopReason}

/-- Whatever the grounds of a planned stop, its run is on an executor and stays there. -/
theorem plan_stop_placed (h : r.Sound)
    (hplan : (plan r config now).action = some (.stop job reason)) :
    ∃ run executor, r.runs.get? job = some run ∧ run.executor = some executor ∧
      run.stopping = false := by
  generalize haction : Action.stop job reason = action at hplan
  have hstop : plannedStop? r config now = some action := by
    subst haction
    exact plan_stop hplan
  cases plannedStop?_cases hstop with
  | forced run _ mem must =>
    obtain ⟨rfl, -⟩ := Action.stop.inj haction
    obtain ⟨⟨executor, hexec⟩, hst, -⟩ := Run.of_mustStop?_eq_some must
    exact ⟨run, executor, h.get?_of_mem mem, hexec, hst⟩
  | surplus run surplus =>
    obtain ⟨rfl, -⟩ := Action.stop.inj haction
    unfold overCap? at surplus
    split at surplus
    · cases surplus
    obtain ⟨mem, hstarted⟩ := List.mem_filter.1 (pick_mem surplus)
    simp only [Bool.and_eq_true, Bool.not_eq_true'] at hstarted
    have hget := h.get?_of_mem mem
    obtain ⟨executor, hexec⟩ :=
      Option.isSome_iff_exists.1 ((h.shaped hget).of_started hstarted.2).1
    exact ⟨run, executor, hget, hexec, hstarted.1⟩
  | balancing move _ _ _ best =>
    obtain ⟨rfl, -⟩ := Action.stop.inj haction
    obtain ⟨mem, hst, current, -, -, -, hexec, -⟩ := balanceMove?_spec best
    exact ⟨move.run, current.executor, h.get?_of_mem mem, hexec, hst⟩

end Registry.Sound

/-! ### What a look at the plan leaves -/

/-- The run of one job becomes another one, a call is issued with it, and that is all that happens
to the jobs, the runs, the executors, the settings and the calls. -/
structure Scheduler.Moves (s : Scheduler κ) (job : String) (run : Run κ) (kind : CallKind)
    (s' : Scheduler κ) : Prop where
  own : s'.registry.runs.get? job = some run
  others : ∀ id, id ≠ job → s'.registry.runs.get? id = s.registry.runs.get? id
  ids : s'.registry.runs.ids = s.registry.runs.ids
  jobs : s'.registry.jobs = s.registry.jobs
  executors : s'.registry.executors = s.registry.executors
  nextOrdinal : s'.registry.nextOrdinal = s.registry.nextOrdinal
  config : s'.config = s.config
  issued : ∃ call, s'.issued = s.issued ++ [call] ∧ call.kind = kind ∧ call.run = run

namespace Scheduler

variable {s s' : Scheduler κ} {now : Instant} {job executor : String} {run run' : Run κ}
  {definition : Job κ} {target : Executor κ} {kind : CallKind}

theorem Moves.of_modifyRun (hrun : s.registry.runs.get? job = some run)
    (hregistry : s'.registry = s.registry.modifyRun job fun _ => run')
    (hconfig : s'.config = s.config)
    (hissued : ∃ call, s'.issued = s.issued ++ [call] ∧ call.kind = kind ∧ call.run = run') :
    s.Moves job run' kind s' where
  own := by rw [hregistry, Registry.get?_modifyRun hrun, if_pos rfl]
  others id hne := by rw [hregistry, Registry.get?_modifyRun hrun, if_neg hne]
  ids := by rw [hregistry]; exact Table.ids_modify _ _ _
  jobs := by rw [hregistry]; rfl
  executors := by rw [hregistry]; rfl
  nextOrdinal := by rw [hregistry]; rfl
  config := hconfig
  issued := hissued

/-- A stop of a run that is on an executor and stays there is begun. -/
theorem stopRun_moves (hrun : s.registry.runs.get? job = some run)
    (hexec : run.executor = some executor) (hst : run.stopping = false) :
    (s.stopRun job false now).2 = .ok () ∧
      s.Moves job (run.stop false now) .stop (s.stopRun job false now).1 := by
  rw [stopRun_bound hrun hst (by rw [hexec]; rfl)]
  exact ⟨rfl, .of_modifyRun hrun rfl rfl (s.putStop_issued _ _ _)⟩

/-- A start of a registered job on a registered executor is begun. -/
theorem startRun_moves (htarget : s.registry.executor? executor = some target)
    (hdef : s.registry.jobs.get? job = some definition)
    (hrun : s.registry.runs.get? job = some run) :
    (s.startRun job executor now).2 = .ok () ∧
      s.Moves job (run.start definition target now) .start (s.startRun job executor now).1 := by
  simp only [startRun, htarget, hdef, hrun]
  refine ⟨trivial, .of_modifyRun hrun rfl rfl ?_⟩
  obtain ⟨call, hissued, hkind, hcall⟩ := issue_issued
    ((((s.put job (run.start definition target now) .starting now).nameExecutor job
      target.name).report .jobStarted (run.start definition target now))) .start
    (run.start definition target now) now
  refine ⟨call, hissued.trans ?_, hkind, hcall⟩
  rw [report_issued, nameExecutor_issued, put_issued]

/-- Reports of missing room issue no calls and leave open whether there is more to do. -/
theorem reportAll_issued (jobs : List String) (s : Scheduler κ) :
    (jobs.foldl (·.reportNoRoom ·) s).issued = s.issued ∧
      (jobs.foldl (·.reportNoRoom ·) s).refreshDue = s.refreshDue := by
  induction jobs generalizing s with
  | nil => exact ⟨rfl, rfl⟩
  | cons job jobs ih =>
    have hfirst : (s.reportNoRoom job).issued = s.issued ∧
        (s.reportNoRoom job).refreshDue = s.refreshDue := by
      unfold reportNoRoom
      split
      · exact ⟨rfl, rfl⟩
      · exact ⟨s.report_issued _ _ _, rfl⟩
    obtain ⟨hissued, hdue⟩ := ih (s.reportNoRoom job)
    exact ⟨hissued.trans hfirst.1, hdue.trans hfirst.2⟩

/-- What is left by a look at the plan that names the given action, or none. -/
inductive Enacts (s : Scheduler κ) (now : Instant) : Option Action → Scheduler κ → Prop
  | rest {s' : Scheduler κ} (registry : s'.registry = s.registry) (config : s'.config = s.config)
      (issued : s'.issued = s.issued) (refreshDue : s'.refreshDue = s.refreshDue) :
      Enacts s now none s'
  | stop {s' : Scheduler κ} {job executor : String} {reason : StopReason} {run : Run κ}
      (registered : s.registry.runs.get? job = some run) (bound : run.executor = some executor)
      (staying : run.stopping = false) (accepted : (s.stopRun job false now).2 = .ok ())
      (moves : s.Moves job (run.stop false now) .stop s') (refreshDue : s'.refreshDue = true) :
      Enacts s now (some (.stop job reason)) s'
  | start {s' : Scheduler κ} {job executor : String} {run : Run κ} {definition : Job κ}
      {target : Executor κ} (registered : s.registry.runs.get? job = some run)
      (pending : run.isPending = true) (defined : s.registry.jobs.get? job = some definition)
      (offered : s.registry.executor? executor = some target)
      (accepted : (s.startRun job executor now).2 = .ok ())
      (moves : s.Moves job (run.start definition target now) .start s')
      (refreshDue : s'.refreshDue = true) : Enacts s now (some (.start job executor)) s'

/-- A move that follows some reports, and asks for another look. -/
theorem Moves.of_reported {s₁ : Scheduler κ} (h : s₁.Moves job run kind s')
    (hregistry : s₁.registry = s.registry) (hconfig : s₁.config = s.config)
    (hissued : s₁.issued = s.issued) :
    s.Moves job run kind { s' with refreshDue := true } where
  own := h.own
  others := hregistry ▸ h.others
  ids := h.ids.trans (by rw [hregistry])
  jobs := h.jobs.trans (by rw [hregistry])
  executors := h.executors.trans (by rw [hregistry])
  nextOrdinal := h.nextOrdinal.trans (by rw [hregistry])
  config := h.config.trans hconfig
  issued := hissued ▸ h.issued

variable [Quantity κ]

/-- **No planned action misfires.** -/
theorem reconcile_enacts (h : s.registry.Sound) (now : Instant) :
    s.Enacts now (plan s.registry s.config now).action (s.reconcile now) := by
  obtain ⟨hregistry, hconfig⟩ := reportAll_same (plan s.registry s.config now).unplaceable s
  obtain ⟨hissued, hdue⟩ := reportAll_issued (plan s.registry s.config now).unplaceable s
  simp only [reconcile]
  generalize (plan s.registry s.config now).unplaceable.foldl (·.reportNoRoom ·) s = s₁
    at hregistry hconfig hissued hdue ⊢
  split
  · rename_i job reason hplan
    rw [hplan]
    obtain ⟨run, executor, hrun, hexec, hst⟩ := h.plan_stop_placed hplan
    have hmoves : s₁.Moves job (run.stop false now) .stop (s₁.stopRun job false now).1 :=
      (stopRun_moves (hregistry ▸ hrun) hexec hst).2
    exact .stop hrun hexec hst (stopRun_moves hrun hexec hst).1
      (hmoves.of_reported hregistry hconfig hissued) rfl
  · rename_i job executor hplan
    rw [hplan]
    obtain ⟨run, definition, target, hrun, hpending, hdef, htarget⟩ := plan_start_registered h hplan
    have hmoves : s₁.Moves job (run.start definition target now) .start
        (s₁.startRun job executor now).1 :=
      (startRun_moves (hregistry ▸ htarget) (hregistry ▸ hdef) (hregistry ▸ hrun)).2
    exact .start hrun hpending hdef htarget (startRun_moves htarget hdef hrun).1
      (hmoves.of_reported hregistry hconfig hissued) rfl
  · rename_i hplan
    rw [hplan]
    exact .rest hregistry hconfig hissued hdue

end Scheduler

/-! ### What follows in any advance -/

/-- A call that is issued for a run as it was found: to stop it, when it was placed, or to start
it, when it was pending. -/
inductive Call.ActsOn (call : Call κ) (r : Registry κ) (now : Instant) : Prop
  | stop (run : Run κ) (found : r.runs.get? call.run.job.id = some run) (placed : run.IsPlaced)
      (kind : call.kind = .stop) (left : call.run = run.stop false now)
  | start (run : Run κ) (definition : Job κ) (target : Executor κ)
      (found : r.runs.get? call.run.job.id = some run) (pending : run.isPending = true)
      (kind : call.kind = .start) (left : call.run = run.start definition target now)

/-- Some calls are issued, and the runs of these calls are all that changes. -/
structure Scheduler.Pursues (s : Scheduler κ) (now : Instant) (calls : List (Call κ))
    (s' : Scheduler κ) : Prop where
  issued : s'.issued = s.issued ++ calls
  acts : ∀ call ∈ calls, call.ActsOn s.registry now
  runs : ∀ id, s'.registry.runs.get? id = s.registry.runs.get? id ∨
    ∃ call ∈ calls, call.run.job.id = id ∧ s'.registry.runs.get? id = some call.run

namespace Scheduler

variable {s s' : Scheduler κ} {now looked shown : Instant} {job : String} {run : Run κ}
  {kind : CallKind} {action : Option Action} {calls : List (Call κ)}

theorem Pursues.rest (hruns : s'.registry.runs = s.registry.runs) (hissued : s'.issued = s.issued) :
    s.Pursues now [] s' :=
  ⟨by simp [hissued], by simp, fun id => .inl (by rw [hruns])⟩

/-- What is only said afterwards, and what the loop notes for itself, changes nothing of this. -/
theorem Pursues.congr {s₁ s₁' : Scheduler κ} (h : s.Pursues now calls s')
    (hbefore : s₁.registry = s.registry ∧ s₁.issued = s.issued)
    (hafter : s₁'.registry = s'.registry ∧ s₁'.issued = s'.issued) :
    s₁.Pursues now calls s₁' := by
  refine ⟨?_, ?_, ?_⟩
  · rw [hafter.2, h.issued, hbefore.2]
  · rw [hbefore.1]
    exact h.acts
  · rw [hbefore.1, hafter.1]
    exact h.runs

/-- A move is pursued by the one call that goes with it. -/
theorem Moves.pursues (h : s.Moves job run kind s') (hkey : run.job.id = job)
    (hacts : ∀ call : Call κ, call.kind = kind → call.run = run → call.ActsOn s.registry now) :
    ∃ calls, s.Pursues now calls s' := by
  obtain ⟨call, hissued, hkind, hrun⟩ := h.issued
  refine ⟨[call], hissued, ?_, fun id => ?_⟩
  · intro call' hcall'
    obtain rfl := List.mem_singleton.1 hcall'
    exact hacts call' hkind hrun
  · by_cases hid : id = job
    · refine .inr ⟨call, List.mem_singleton_self call, ?_, ?_⟩
      · rw [hrun, hkey, hid]
      · rw [hid, hrun, h.own]
    · exact .inl (h.others id hid)

variable [Quantity κ]

theorem Enacts.pursues (h : s.Enacts now action s') (hsound : s.registry.Sound) :
    ∃ calls, s.Pursues now calls s' := by
  cases h with
  | rest hregistry _ hissued => exact ⟨[], .rest (by rw [hregistry]) hissued⟩
  | @stop _ job _ _ run registered bound staying _ moves =>
    have hjob : run.job.id = job := hsound.run_key registered
    have hkey : (run.stop false now).job.id = job := hjob
    refine moves.pursues hkey fun call hkind hcall => ?_
    refine .stop run ?_ ⟨by simp [bound], staying⟩ hkind hcall
    rw [hcall, hkey]
    exact registered
  | @start _ job _ run definition target registered pending defined _ _ moves =>
    have hkey : (run.start definition target now).job.id = job := hsound.job_key defined
    refine moves.pursues hkey fun call hkind hcall => ?_
    refine .start run definition target ?_ pending hkind hcall
    rw [hcall, hkey]
    exact registered

/-- What is said at the end of a turn is no call. -/
theorem turnAt_issued (s : Scheduler κ) (e : Event κ) (heard looked shown : Instant) :
    (s.turnAt e heard looked shown).issued =
      ({ (s.accept e heard).1 with refreshDue := false }.reconcile looked).issued := by
  have hreplies : ∀ (tickets : List Ticket) (reply : Reply),
      (tickets.map fun ticket => .reply ticket reply).filterMap (Output.call? (κ := κ)) = [] := by
    simp [Output.call?]
  have hpass : (s.pass e heard looked shown).issued =
      ({ (s.accept e heard).1 with refreshDue := false }.reconcile looked).issued := by
    simp only [pass]
    generalize s.accept e heard = accepted
    obtain ⟨s₁, held⟩ := accepted
    cases held with
    | none => rfl
    | some held => exact (emit_issued _ _).trans (List.append_nil _)
  rw [← hpass, turnAt, issued, (answerChecks_eq _).2.2.2, List.filterMap_append, hreplies,
    List.append_nil]
  rfl

/-- A look at the runs while draining stops each that is placed. -/
theorem drainPass_pursues (hsound : s.registry.Sound) (looked shown : Instant) :
    s.Pursues looked ((s.registry.allRuns.filter (·.IsPlaced)).map (s.stopCall · looked))
      (s.drainPass looked shown) := by
  refine ⟨drainPass_issued hsound, ?_, fun id => ?_⟩
  · intro call hcall
    obtain ⟨run, hrun, rfl⟩ := List.mem_map.1 hcall
    obtain ⟨hmem, hplaced⟩ := List.mem_filter.1 hrun
    exact .stop run (hsound.get?_of_mem hmem) (by simpa using hplaced) rfl rfl
  · rw [drainPass_get? hsound]
    cases hrun : s.registry.runs.get? id with
    | none => exact .inl rfl
    | some run =>
      by_cases hplaced : run.IsPlaced
      · refine .inr ⟨s.stopCall run looked, List.mem_map_of_mem ?_, ?_, ?_⟩
        · exact List.mem_filter.2 ⟨Table.mem_values hrun, by simpa using hplaced⟩
        · have hkey : run.job.id = id := hsound.run_key hrun
          exact hkey
        · rw [Option.map_some, if_pos hplaced]
          rfl
      · exact .inl (by rw [Option.map_some, if_neg hplaced])

end Scheduler

/-- **What an advance does when it has taken in what it starts with**: it issues calls, and only the
runs of these calls change. -/
theorem Advance.pursues [Quantity κ] {s : Scheduler κ} (hsound : s.registry.Sound)
    (a : Advance κ) : ∃ calls, (a.takeIn s).Pursues a.looked calls (a.apply s) := by
  have htaken : (a.takeIn s).registry.Sound := Advance.takeIn_sound hsound
  cases a with
  | turn e heard looked shown =>
    have henacts := reconcile_enacts (s := { (s.accept e heard).1 with refreshDue := false })
      htaken looked
    obtain ⟨calls, hpursues⟩ := henacts.pursues htaken
    exact ⟨calls, hpursues.congr ⟨rfl, rfl⟩
      ⟨(turnAt_eq s e heard looked shown).1, turnAt_issued s e heard looked shown⟩⟩
  | leave queued looked shown =>
    have hdrains := drainPass_pursues
      (s := { s.answerAll (queued ++ s.checksWaiting) (.error .shutdown) with
        stage := .draining, checksWaiting := [] })
      (by rw [answerAll_eq]; exact hsound) looked shown
    refine ⟨_, hdrains.congr ?_ ⟨rfl, rfl⟩⟩
    simp [answerAll_eq, takeIn, issued, Output.call?]
  | drain c heard looked shown => exact ⟨_, drainPass_pursues htaken looked shown⟩

end Dispatch
