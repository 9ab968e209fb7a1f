import Dispatch.Proofs.History.Replay
import Dispatch.Proofs.History.Sound
import Dispatch.Proofs.Numbers
import Dispatch.Report.Dashboard

/-!
# The phases that are shown

For each job the scheduler keeps time accounts, and the phase that is open there is what the outside
is shown of the state of its run.  Runs and accounts are changed separately, and accounts outlast
the removal of their jobs.

* `RunState.phase` : the phase that belongs to the state of a run;
* `Does.inPhase`, `ReachedBy.inPhase` : the phases that are open are those of the runs registered;
* `Scheduler.InPhase.countP_open` : as many phases are open as jobs are registered;
* `phases_follow_runs` : **the phases shown are those of the runs**, in every history.
-/

namespace Dispatch

open Scheduler Registry

variable {κ : Type}

/-- The phase in which the time of a job is counted while its run is in a state. -/
def RunState.phase : RunState → Phase
  | .pending => .existing
  | .starting => .starting
  | .running => .running
  | .stopping => .ending

theorem RunState.phase_inj {state state' : RunState} :
    state.phase = state'.phase ↔ state = state' := by
  cases state <;> cases state' <;> simp [phase]

theorem RunState.phase_ne_gone (state : RunState) : state.phase ≠ .gone := by
  cases state <;> exact nofun

namespace Timings

theorem phase?_enter (t : Timings) (phase : Phase) (now : Instant) :
    (t.enter phase now).phase? = if phase = .gone then none else some phase := by
  cases phase <;> rfl

end Timings

namespace Scheduler

variable {s s' : Scheduler κ} {job id : String} {run run' : Run κ} {now : Instant} {phase : Phase}

/-- The phase that is open in the time accounts of a job. -/
def phase? (s : Scheduler κ) (id : String) : Option Phase := (s.timings.get? id).bind Timings.phase?

theorem phase?_enter : (s.enter job phase now).phase? id =
    if id = job then (if phase = .gone then none else some phase) else s.phase? id := by
  simp only [phase?, enter, Table.get?_update]
  split
  · simp [Timings.phase?_enter]
  · rfl

/-- Accounts that are opened only to note something have no open phase. -/
theorem phase?_update {f : Timings → Timings} (hf : ∀ t, (f t).phase? = t.phase?) :
    ((s.timings.update job {} f).get? id).bind Timings.phase? = s.phase? id := by
  rw [Table.get?_update, phase?]
  split
  · rename_i hid
    rw [hid, Option.bind_some, hf]
    cases s.timings.get? job <;> rfl
  · rfl

theorem phase?_nameJob (name : String) : (s.nameJob job name).phase? id = s.phase? id :=
  phase?_update fun _ => rfl

theorem phase?_nameExecutor (name : String) : (s.nameExecutor job name).phase? id = s.phase? id :=
  phase?_update fun _ => rfl

/-- The phases that are open are those of the runs that are registered. -/
def InPhase (s : Scheduler κ) : Prop :=
  ∀ id, s.phase? id = (s.registry.runs.get? id).map (·.state.phase)

namespace InPhase

/-- Only the runs and the accounts count. -/
theorem congr (h : s.InPhase) (hruns : s'.registry.runs = s.registry.runs)
    (htimings : s'.timings = s.timings) : s'.InPhase := by
  intro id
  rw [phase?, hruns, htimings]
  exact h id

/-- A run takes the place of another one, and the phase that belongs to it is entered. -/
theorem put (h : s.InPhase) (hrun : s.registry.runs.get? job = some run)
    (hphase : run'.state.phase = phase) : (s.put job run' phase now).InPhase := by
  intro id
  have hopen : phase ≠ .gone := hphase ▸ run'.state.phase_ne_gone
  rw [Scheduler.put, phase?_enter, if_neg hopen, enter_registry, modifyRun_registry,
    get?_modifyRun hrun]
  split
  · rw [Option.map_some, hphase]
  · exact h id

/-- A job is forgotten, and its accounts have no open phase any more. -/
theorem drop (h : s.InPhase) : (s.drop job now).InPhase := by
  intro id
  rw [Scheduler.drop, phase?_enter, enter_registry]
  simp only [removeRun, Table.get?_erase]
  split
  · rfl
  · exact h id

theorem noteStop (h : s.InPhase) (result : CallResult) : (s.noteStop run result).InPhase := by
  cases result <;> exact h.congr rfl rfl

variable [Quantity κ] {r : Registry κ}

theorem addJob (h : s.InPhase) (hsound : s.registry.Sound) {job : Job κ}
    (hr : s.registry.addJob job = .ok r) :
    (({ s with registry := r }.enter job.id .existing now).nameJob job.id job.name).InPhase := by
  obtain ⟨-, hnew, rfl⟩ := of_addJob hr
  intro id
  rw [phase?_nameJob, phase?_enter, nameJob_registry, enter_registry, Table.get?_addNew]
  by_cases hid : id = job.id
  · rw [if_pos hid, if_pos hid, hid, hsound.get?_runs_eq_none hnew]
    rfl
  · rw [if_neg hid, if_neg hid, Option.or_none]
    exact h id

theorem changeJob (h : s.InPhase) {job : Job κ} (hr : s.registry.changeJob job = .ok r) :
    ({ s with registry := r }.nameJob job.id job.name).InPhase := by
  obtain ⟨old, -, -, rfl⟩ := of_changeJob hr
  intro id
  rw [phase?_nameJob, nameJob_registry, Table.get?_modify]
  refine (h id).trans ?_
  split
  · -- a new definition does not change what the run is doing
    rw [Option.map_map]
    refine Option.map_congr fun run _ => ?_
    rw [Function.comp_apply]
    split <;> rfl
  · rfl

omit [Quantity κ] in
/-- Registered jobs have a run and accounts, with the phase open that belongs to the run. -/
theorem get?_timings (h : s.InPhase) (hrun : s.registry.runs.get? id = some run) :
    ∃ t, s.timings.get? id = some t ∧ t.phase? = some run.state.phase := by
  have hopen := h id
  rw [hrun, Option.map_some] at hopen
  exact Option.bind_eq_some_iff.1 hopen

/-- **As many phases are open as jobs are registered.** -/
theorem countP_open (h : s.InPhase) (hsound : s.registry.Sound) (now : Instant) :
    (s.timingsAt now).countP (·.2.phase?.isSome) = s.registry.jobs.size := by
  have hids : ((s.timings.entries.filter (·.2.phase?.isSome)).map Prod.fst).Perm
      s.registry.runs.ids := by
    have hnodup : s.registry.runs.ids.Nodup := s.registry.runs.nodup
    refine (List.perm_ext_iff_of_nodup ?_ hnodup).2 fun id => ?_
    · exact s.timings.nodup.sublist (List.filter_sublist.map _)
    · rw [← Table.get?_isSome_iff, ← Option.isSome_map, ← h id]
      simp [phase?, Table.mem_entries_iff, Option.isSome_bind, Option.any_eq_true]
  calc (s.timingsAt now).countP (·.2.phase?.isSome)
      = (s.timings.entries.filter (·.2.phase?.isSome)).length := by
        rw [timingsAt, List.countP_map, List.countP_eq_length_filter]
        rfl
    _ = s.registry.runs.ids.length := by rw [← hids.length_eq, List.length_map]
    _ = s.registry.jobs.size := by rw [Table.size_eq, hsound.ids]

end InPhase

end Scheduler

variable [Quantity κ] {now : Instant} {s s' : Scheduler κ} {d : Deed κ}

/-- **Every deed that changes the state of a run enters the phase that belongs to it.** -/
theorem Does.inPhase (hdoes : Does now s d s') (hsound : s.registry.Sound) (h : s.InPhase) :
    s'.InPhase := by
  cases hdoes with
  | aside hsame => exact h.congr (by rw [hsame.registry]) hsame.timings
  | callBack => exact h.congr rfl rfl
  | limit => exact h.congr rfl rfl
  | say => exact h.congr rfl rfl
  | addJob hr => exact h.addJob hsound hr
  | changeJob hr => exact h.changeJob hr
  | addExecutor hr =>
    obtain ⟨-, -, rfl⟩ := of_addExecutor hr
    exact h.congr rfl rfl
  | removeExecutor hr =>
    obtain rfl := of_removeExecutor hr
    exact h.congr rfl rfl
  | changeExecutor hr =>
    obtain ⟨-, -, -, -, rfl⟩ := of_changeExecutor hr
    exact h.congr rfl rfl
  | keepAlive hr =>
    obtain rfl := of_keepAlive hr
    exact h.congr rfl rfl
  | @start job executor e definition run he hdef hrun hplan =>
    have hfree := (Run.isPending_iff.1 (plan_start_pending hsound hrun hplan).1).2
    have hput : (s.put job (run.start definition e now) .starting now).InPhase :=
      h.put hrun (by rw [Run.state_start hfree]; rfl)
    intro id
    exact (phase?_nameExecutor e.name).trans (hput id)
  | confirm hrun hst =>
    exact (h.put hrun (by rw [Run.state_confirm hst]; rfl)).congr rfl rfl
  | mark hrun hst =>
    -- the run goes on being stopped, so no phase is entered
    intro id
    rw [modifyRun_registry, get?_modifyRun hrun]
    split
    · rename_i hid
      refine (h id).trans ?_
      rw [hid, hrun]
      rfl
    · exact h id
  | discard => exact h.drop
  | stop hrun => exact (h.put hrun (by rw [Run.state_stop]; rfl)).congr rfl rfl
  | release hrun hst => exact (h.put hrun (by rw [Run.state_release hst]; rfl)).congr rfl rfl
  | @settle job run result hrun hst =>
    have hshaped := hsound.shaped hrun
    have hnoted : (s.noteStop run result).registry.runs.get? job = some run := by
      rw [noteStop_registry]
      exact hrun
    refine ((h.noteStop result).put hnoted ?_).congr rfl rfl
    rw [Run.state_settle (hshaped.unstarted_of_stopping hst) (hshaped.unran_of_stopping hst)]
    rfl
  | finish => exact (h.noteStop _).drop
  | @forget _ _ run hrun hst =>
    have hstate : (run.release now).state = .pending := Run.state_release hst
    exact h.put hrun (congrArg RunState.phase hstate)
  | adopt _ hrun hst => exact h.put hrun (by rw [Run.state_adopt hst]; rfl)
  | expel _ hrun => exact (h.put hrun (by rw [Run.state_stop]; rfl)).congr rfl rfl

theorem ReachedBy.inPhase {P : Scheduler κ → Advance κ → Prop} {config : Config κ}
    {session : Session κ} (h : ReachedBy P config session) : session.scheduler.InPhase := by
  refine h.invariant (I := fun session => session.scheduler.InPhase) (fun _ _ _ => rfl) ?_
  rintro session a _ hreach hinPhase - ⟨-, -, rest, -, rfl⟩
  have happlied : (a.apply session.scheduler).InPhase :=
    (Advance.course hreach.sound.run_key (a.grants_all _)).invariant_of_sound hreach.sound
      hinPhase fun _ _ _ _ hsound hinPhase _ hdoes => hdoes.inPhase hsound hinPhase
  exact happlied.congr rfl rfl

/-- **The phases shown are those of the runs.**  After every advance, each registered job has time
accounts, and the phase that is open there is that of the state of its run; accounts of other jobs
have no open phase; so the health page counts the jobs that are registered. -/
theorem phases_follow_runs {config : Config κ} {session : Session κ}
    (h : Reachable config session) :
    (∀ id job, session.scheduler.registry.jobs.get? id = some job →
      ∃ run t, session.scheduler.registry.runs.get? id = some run ∧
        session.scheduler.timings.get? id = some t ∧
        ∀ state : RunState, t.phase? = some state.phase ↔ run.state = state) ∧
    (∀ id t, session.scheduler.registry.jobs.get? id = none →
      session.scheduler.timings.get? id = some t → t.phase? = none) ∧
    ∀ draining now executors,
      Route.health.page draining (session.scheduler.timingsAt now) executors = .object
        [("status", .text (if draining then "draining" else "ok")),
          ("jobs", .nat session.scheduler.registry.jobs.size),
          ("executors", .nat executors.length),
          ("alive_executors", .nat (executors.countP (·.alive)))] := by
  refine ⟨fun id job hjob => ?_, fun id t hnone ht => ?_, fun draining now executors => ?_⟩
  · obtain ⟨run, hrun⟩ := h.sound.run_of_job hjob
    obtain ⟨t, ht, hphase⟩ := h.inPhase.get?_timings hrun
    refine ⟨run, t, hrun, ht, fun state => ?_⟩
    rw [hphase, Option.some.injEq, RunState.phase_inj]
  · have hclosed := h.inPhase id
    rw [h.sound.get?_runs_eq_none hnone] at hclosed
    simpa [phase?, ht] using hclosed
  · simp only [Route.page, healthJson, h.inPhase.countP_open h.sound now]

/-- Of the jobs, the first is being stopped and the second runs, the third was removed and added
again and waits, and the last one was removed. -/
def comeAndGone : Session ℚ :=
  (Session.play (fun _ _ => true) { scheduler := { config := startConfirms }, now := 0 }
    [(0, .request (.addExecutor { id := "A", capacity := 2 })),
      (0, .request (.addJob { id := "j1", cost := 1 })),
      (1, .answer 0 (.ok ())),
      (1, .request (.addJob { id := "j2", cost := 1 })),
      (2, .answer 0 (.ok ())),
      (3, .request (.stopJob "j1")),
      (4, .request (.addJob { id := "j3", cost := 5 })),
      (5, .request (.removeJob "j3")),
      (6, .request (.addJob { id := "j3", cost := 5 })),
      (7, .request (.addJob { id := "j4", cost := 5 })),
      (8, .request (.removeJob "j4"))]).get (by decide +kernel)

theorem phases_follow_runs_comeAndGone :
    (comeAndGone.scheduler.timings.entries.map fun e => (e.1, e.2.phase?)) =
        [("j1", some .ending), ("j2", some .running), ("j3", some .existing), ("j4", none)] ∧
      comeAndGone.scheduler.registry.jobs.size = 3 ∧
      ∀ executors, Route.health.page false (comeAndGone.scheduler.timingsAt 9) executors = .object
        [("status", .text "ok"), ("jobs", .nat comeAndGone.scheduler.registry.jobs.size),
          ("executors", .nat executors.length),
          ("alive_executors", .nat (executors.countP (·.alive)))] := by
  have hreach : Reachable startConfirms comeAndGone :=
    Session.play_reachedBy (fun _ _ _ => trivial) (.start 0 (by decide +kernel))
      (Option.some_get _).symm
  exact ⟨by decide +kernel, by decide +kernel, fun executors =>
    (phases_follow_runs hreach).2.2 false 9 executors⟩

end Dispatch
