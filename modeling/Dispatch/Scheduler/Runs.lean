import Dispatch.Scheduler.Basic

/-! # The life of a run

The moves of a run through its states, with the calls, situations and time accounts that go with
them.  A call is matched with its run by the attempt number, which every start and stop raises; an
outcome that comes back under an older number changes nothing.
-/

namespace Dispatch.Scheduler

variable {κ : Type}

/-- Start a job on an executor, under the present definition of the job. -/
def startRun (s : Scheduler κ) (job executor : String) (now : Instant) : Scheduler κ × Reply :=
  match s.registry.executor? executor, s.registry.jobs.get? job, s.registry.runs.get? job with
  | some e, some definition, some run =>
    let run := run.start definition e now
    let s := s.modifyRun job fun _ => run
    let s := (s.enter job .starting now).nameExecutor job e.name
    ((s.report .jobStarted run).issue .start run now, .ok ())
  | none, _, _ => (s, .error (.executorNotFound executor))
  | some _, _, _ => (s, .error (.jobNotFound job))

/-- Note that a starting job is running.  The word counts for a starting job only. -/
def confirmRun (s : Scheduler κ) (job : String) (now : Instant) : Scheduler κ × Reply :=
  match s.registry.runs.get? job with
  | none => (s, .error (.jobNotFound job))
  | some run =>
    if run.stopping || !run.isStarting then (s, .ok ())
    else
      let run := run.confirm now
      let s := (s.modifyRun job fun _ => run).enter job .running now
      (s.report .jobRunning run, .ok ())

/-- Begin to stop a job.  A job that is on no executor has nothing to stop, and is forgotten at
once when it is to be removed; a job already being stopped is, at most, marked for removal. -/
def stopRun (s : Scheduler κ) (job : String) (remove : Bool) (now : Instant) :
    Scheduler κ × Reply :=
  match s.registry.runs.get? job with
  | none => (s, .error (.jobNotFound job))
  | some run =>
    if run.stopping then
      if remove && !run.removing then (s.modifyRun job ({ · with removing := true }), .ok ())
      else (s, .ok ())
    else if run.executor.isNone then
      if remove then
        ({ s with registry := s.registry.removeRun job }.enter job .gone now, .ok ())
      else (s, .ok ())
    else
      let run := run.stop remove now
      let s := (s.modifyRun job fun _ => run).enter job .ending now
      ((s.report .jobStopped run).issue .stop run now, .ok ())

/-- A start call came back. -/
def startFinished (s : Scheduler κ) (job : String) (attempt : Nat) (result : CallResult)
    (now : Instant) : Scheduler κ :=
  match s.registry.runs.get? job with
  | none => s
  | some run =>
    if run.attempt ≠ attempt || run.stopping || run.startedAt.isNone then s
    else
      match result with
      | .ok () => if s.config.runningOnStart then (s.confirmRun job now).1 else s
      | .error cause =>
        let run := run.release now
        let s := (s.modifyRun job fun _ => run).enter job .existing now
        s.report .startFailed run (some cause)

/-- A stop call came back; whatever its outcome, the run is off its executor. -/
def stopFinished (s : Scheduler κ) (job : String) (attempt : Nat) (result : CallResult)
    (now : Instant) : Scheduler κ :=
  match s.registry.runs.get? job with
  | none => s
  | some run =>
    if run.attempt ≠ attempt || !run.stopping then s
    else
      let s :=
        match result with
        | .ok () => s
        | .error cause => s.report .stopFailed run (some cause)
      if run.removing then
        { s with registry := s.registry.removeRun job }.enter job .gone now
      else
        let run := run.settle ((s.registry.jobs.get? job).getD run.job)
        let s := (s.modifyRun job fun _ => run).enter job .existing now
        s.report .jobEnded run

/-- A call came back. -/
def complete (s : Scheduler κ) (c : Completion) (now : Instant) : Scheduler κ :=
  let s := { s with inFlight := s.inFlight - 1 }
  match c.kind with
  | .start => s.startFinished c.job c.attempt c.result now
  | .stop => s.stopFinished c.job c.attempt c.result now

end Dispatch.Scheduler
