import Dispatch.Proofs.History.Session

/-!
# Deeds

All that an advance of the scheduler does is a chain of deeds.  A `Deed` touches the run of one job,
the definition of one job or one executor, says one thing, or only keeps the books of the loop.
`Does` gives for each deed when it happens and the exact state that follows; `Course Q` are the
chains of deeds of which each satisfies `Q` at its instant and in the state in which it is done.

What every advance is made of is said in `Dispatch.Proofs.History.Course`; an invariant is then
proved by one case per deed, through `Course.invariant`.
-/

namespace Dispatch

variable {κ : Type}

/-- A single thing that the scheduler does. -/
inductive Deed (κ : Type)
  /-- Only the flags, timers and lists of the loop itself change. -/
  | aside
  /-- One call fewer is under way. -/
  | callBack
  | limit (count : Nat)
  /-- Something other than a call is said. -/
  | say (o : Output κ)
  | addJob (job : Job κ)
  | changeJob (job : Job κ)
  | addExecutor (executor : Executor κ)
  | removeExecutor (id : String)
  | changeExecutor (executor : Executor κ)
  | keepAlive (id : String)
  | start (job executor : String)
  | confirm (job : String)
  /-- A job being stopped is to be removed as well. -/
  | mark (job : String)
  /-- A pending job is removed. -/
  | discard (job : String)
  | stop (job : String) (remove : Bool)
  /-- A failed start takes a run off its executor. -/
  | release (job : String)
  /-- A stop is over and the run is pending. -/
  | settle (job : String)
  /-- A stop is over and the job is gone. -/
  | finish (job : String)
  /-- An executor no longer hosts a job. -/
  | forget (job : String)
  /-- A pending job turns out to be hosted and stays where it is. -/
  | adopt (job executor : String)
  /-- A pending job turns out to be hosted and is taken off again. -/
  | expel (job executor : String)

namespace Scheduler

/-- The books on jobs, executors and calls are the same, and a loop that was left stays left. -/
structure SameBooks (s s' : Scheduler κ) : Prop where
  config : s'.config = s.config
  registry : s'.registry = s.registry
  timings : s'.timings = s.timings
  inFlight : s'.inFlight = s.inFlight
  outbox : s'.outbox = s.outbox
  onward : s'.stage = .serving → s.stage = .serving

/-- Put a run in place of the one of its job and note its new phase. -/
def put (s : Scheduler κ) (job : String) (run : Run κ) (phase : Phase) (now : Instant) :
    Scheduler κ :=
  (s.modifyRun job fun _ => run).enter job phase now

/-- The state after a stop has begun that leaves the job with `run`. -/
def putStop (s : Scheduler κ) (job : String) (run : Run κ) (now : Instant) : Scheduler κ :=
  ((s.put job run .ending now).report .jobStopped run).issue .stop run now

/-- The state after a job and its run are dropped. -/
def drop (s : Scheduler κ) (job : String) (now : Instant) : Scheduler κ :=
  { s with registry := s.registry.removeRun job }.enter job .gone now

/-- The report of a failed stop. -/
def noteStop (s : Scheduler κ) (run : Run κ) (result : CallResult) : Scheduler κ :=
  match result with
  | .ok () => s
  | .error cause => s.report .stopFailed run (some cause)

section Fields

variable (s : Scheduler κ) (o : Output κ) (kind : Situation) (call : CallKind) (run : Run κ)
  (cause : Option CallError) (result : CallResult) (job name : String) (phase : Phase)
  (now : Instant)

/-! What the parts of a deed leave of the registry, the settings and the calls issued. -/

@[simp] theorem emit_registry : (s.emit o).registry = s.registry := rfl

@[simp] theorem report_registry : (s.report kind run cause).registry = s.registry := rfl

@[simp] theorem issue_registry : (s.issue call run now).registry = s.registry := rfl

@[simp] theorem enter_registry : (s.enter job phase now).registry = s.registry := rfl

@[simp] theorem nameJob_registry : (s.nameJob job name).registry = s.registry := rfl

@[simp] theorem nameExecutor_registry : (s.nameExecutor job name).registry = s.registry := rfl

@[simp] theorem modifyRun_registry (f : Run κ → Run κ) :
    (s.modifyRun job f).registry = s.registry.modifyRun job f := rfl

@[simp] theorem put_registry :
    (s.put job run phase now).registry = s.registry.modifyRun job fun _ => run := rfl

@[simp] theorem putStop_registry :
    (s.putStop job run now).registry = s.registry.modifyRun job fun _ => run := rfl

@[simp] theorem drop_registry : (s.drop job now).registry = s.registry.removeRun job := rfl

@[simp] theorem noteStop_registry : (s.noteStop run result).registry = s.registry := by
  cases result <;> rfl

@[simp] theorem emit_config : (s.emit o).config = s.config := rfl

@[simp] theorem report_config : (s.report kind run cause).config = s.config := rfl

@[simp] theorem issue_config : (s.issue call run now).config = s.config := rfl

@[simp] theorem enter_config : (s.enter job phase now).config = s.config := rfl

@[simp] theorem nameJob_config : (s.nameJob job name).config = s.config := rfl

@[simp] theorem nameExecutor_config : (s.nameExecutor job name).config = s.config := rfl

@[simp] theorem put_config : (s.put job run phase now).config = s.config := rfl

@[simp] theorem putStop_config : (s.putStop job run now).config = s.config := rfl

@[simp] theorem drop_config : (s.drop job now).config = s.config := rfl

@[simp] theorem noteStop_config : (s.noteStop run result).config = s.config := by
  cases result <;> rfl

@[simp] theorem emit_issued : (s.emit o).issued = s.issued ++ o.call?.toList := by
  cases h : o.call? <;> simp [issued, emit, h]

@[simp] theorem report_issued : (s.report kind run cause).issued = s.issued := by
  simp [report, Output.call?]

@[simp] theorem enter_issued : (s.enter job phase now).issued = s.issued := rfl

@[simp] theorem nameJob_issued : (s.nameJob job name).issued = s.issued := rfl

@[simp] theorem nameExecutor_issued : (s.nameExecutor job name).issued = s.issued := rfl

@[simp] theorem put_issued : (s.put job run phase now).issued = s.issued := rfl

@[simp] theorem drop_issued : (s.drop job now).issued = s.issued := rfl

@[simp] theorem noteStop_issued : (s.noteStop run result).issued = s.issued := by
  cases result
  · exact s.report_issued _ _ _
  · rfl

/-- A call is issued with the run as it is then. -/
theorem issue_issued : ∃ c : Call κ, (s.issue call run now).issued = s.issued ++ [c] ∧
    c.kind = call ∧ c.run = run := by
  refine ⟨_, emit_issued _ _, rfl, rfl⟩

theorem putStop_issued : ∃ c : Call κ, (s.putStop job run now).issued = s.issued ++ [c] ∧
    c.kind = .stop ∧ c.run = run := by
  obtain ⟨c, hc, hkind, hrun⟩ :=
    issue_issued ((s.put job run .ending now).report .jobStopped run) .stop run now
  refine ⟨c, ?_, hkind, hrun⟩
  rw [putStop, hc, report_issued, put_issued]

end Fields

end Scheduler

open Scheduler

variable [Quantity κ]

/-- The scheduler does a deed at an instant. -/
inductive Does (now : Instant) (s : Scheduler κ) : Deed κ → Scheduler κ → Prop
  | aside {s' : Scheduler κ} : s.SameBooks s' → Does now s .aside s'
  | callBack : Does now s .callBack { s with inFlight := s.inFlight - 1 }
  | limit (count : Nat) : Does now s (.limit count) { s with config.maxJobs := count }
  | say {o : Output κ} : o.call? = none → Does now s (.say o) (s.emit o)
  | addJob {job : Job κ} {r : Registry κ} : s.registry.addJob job = .ok r →
      Does now s (.addJob job)
        (({ s with registry := r }.enter job.id .existing now).nameJob job.id job.name)
  | changeJob {job : Job κ} {r : Registry κ} : s.registry.changeJob job = .ok r →
      Does now s (.changeJob job) ({ s with registry := r }.nameJob job.id job.name)
  | addExecutor {e : Executor κ} {r : Registry κ} : s.registry.addExecutor e now = .ok r →
      Does now s (.addExecutor e) { s with registry := r }
  | removeExecutor {id : String} {r : Registry κ} : s.registry.removeExecutor id = .ok r →
      Does now s (.removeExecutor id) { s with registry := r }
  | changeExecutor {e : Executor κ} {r : Registry κ} {revised : Bool} :
      s.registry.changeExecutor e = .ok (r, revised) →
      Does now s (.changeExecutor e) { s with registry := r }
  | keepAlive {id : String} {r : Registry κ} : s.registry.keepAlive id now = .ok r →
      Does now s (.keepAlive id) { s with registry := r }
  | start {job executor : String} {e : Executor κ} {definition : Job κ} {run : Run κ} :
      s.registry.executor? executor = some e → s.registry.jobs.get? job = some definition →
      s.registry.runs.get? job = some run →
      (plan s.registry s.config now).action = some (.start job executor) →
      Does now s (.start job executor)
        ((((s.put job (run.start definition e now) .starting now).nameExecutor job e.name).report
          .jobStarted (run.start definition e now)).issue .start (run.start definition e now) now)
  | confirm {job : String} {run : Run κ} : s.registry.runs.get? job = some run →
      run.stopping = false → run.isStarting = true →
      Does now s (.confirm job)
        ((s.put job (run.confirm now) .running now).report .jobRunning (run.confirm now))
  | mark {job : String} {run : Run κ} : s.registry.runs.get? job = some run →
      run.stopping = true →
      Does now s (.mark job) (s.modifyRun job fun _ => { run with removing := true })
  | discard {job : String} {run : Run κ} : s.registry.runs.get? job = some run →
      run.stopping = false → run.executor = none → Does now s (.discard job) (s.drop job now)
  | stop {job executor : String} {remove : Bool} {run : Run κ} :
      s.registry.runs.get? job = some run → run.stopping = false →
      run.executor = some executor →
      Does now s (.stop job remove) (s.putStop job (run.stop remove now) now)
  | release {job : String} {run : Run κ} {cause : CallError} :
      s.registry.runs.get? job = some run → run.stopping = false →
      run.startedAt.isSome = true →
      Does now s (.release job)
        ((s.put job (run.release now) .existing now).report .startFailed (run.release now)
          (some cause))
  | settle {job : String} {run : Run κ} {result : CallResult} :
      s.registry.runs.get? job = some run → run.stopping = true → run.removing = false →
      Does now s (.settle job)
        (((s.noteStop run result).put job
          (run.settle ((s.registry.jobs.get? job).getD run.job)) .existing now).report .jobEnded
          (run.settle ((s.registry.jobs.get? job).getD run.job)))
  | finish {job : String} {run : Run κ} {result : CallResult} :
      s.registry.runs.get? job = some run → run.stopping = true → run.removing = true →
      Does now s (.finish job) ((s.noteStop run result).drop job now)
  | forget {job executor : String} {run : Run κ} : s.registry.runs.get? job = some run →
      run.stopping = false → run.executor = some executor →
      Does now s (.forget job)
        (s.put job { run.release now with attempt := run.attempt + 1 } .existing now)
  | adopt {job executor : String} {e : Executor κ} {run : Run κ} :
      s.registry.executor? executor = some e → s.registry.runs.get? job = some run →
      run.stopping = false → run.executor = none →
      admits s.registry s.config executor run.job.cost now = true →
      Does now s (.adopt job executor)
        (s.put job ((run.bind executor e.revision).adopt now) .running now)
  | expel {job executor : String} {e : Executor κ} {run : Run κ} :
      s.registry.executor? executor = some e → s.registry.runs.get? job = some run →
      run.stopping = false → run.executor = none →
      Does now s (.expel job executor)
        (s.putStop job ((run.bind executor e.revision).stop false now) now)

/-- Chains of deeds of which each satisfies `Q` at the instant and in the state in which it is
done. -/
inductive Course (Q : Instant → Scheduler κ → Deed κ → Prop) : Scheduler κ → Scheduler κ → Prop
  | refl (s : Scheduler κ) : Course Q s s
  | tail {s s' s'' : Scheduler κ} {now : Instant} {d : Deed κ} : Course Q s s' → Q now s' d →
      Does now s' d s'' → Course Q s s''

namespace Course

variable {now : Instant} {Q : Instant → Scheduler κ → Deed κ → Prop} {s s' s'' : Scheduler κ}

theorem single {d : Deed κ} (h : Does now s d s') (hQ : Q now s d) : Course Q s s' :=
  .tail (.refl s) hQ h

theorem trans (h : Course Q s s') (h' : Course Q s' s'') : Course Q s s'' := by
  induction h' with
  | refl => exact h
  | tail _ hQ hd ih => exact .tail ih hQ hd

/-- What every deed keeps, a chain of deeds keeps. -/
theorem invariant {I : Scheduler κ → Prop} (h : Course Q s s') (hs : I s)
    (step : ∀ now s d s', I s → Q now s d → Does now s d s' → I s') : I s' := by
  induction h with
  | refl => exact hs
  | tail _ hQ hd ih => exact step _ _ _ _ ih hQ hd

end Course

end Dispatch
