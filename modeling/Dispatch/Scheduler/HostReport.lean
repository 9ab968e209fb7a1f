import Dispatch.Scheduler.Runs

/-! # What an executor says it hosts

An executor may report the full list of jobs it hosts.  Runs bound to it that are not on the list
are pending again, with no stop call.  Each job on the list is then brought in line, in order: a job
that is not known is reported, a job placed elsewhere is stopped there, and a pending job is adopted
if placement would have put it here, else taken off again.
-/

namespace Dispatch

/-- The list without repetitions, each element at its first place. -/
def firstOccurrences (ids : List String) : List String :=
  ids.foldl (fun seen id => if seen.contains id then seen else seen ++ [id]) []

namespace Scheduler

variable {κ : Type}

/-- A run turned out not to be on its executor any more. -/
def forget (s : Scheduler κ) (job : String) (now : Instant) : Scheduler κ :=
  (s.modifyRun job fun run => { run.release now with attempt := run.attempt + 1 }).enter
    job .existing now

/-- The jobs bound to an executor and not being stopped that are missing from a list. -/
def missingFrom (s : Scheduler κ) (executor : String) (listed : List String) : List String :=
  ((s.registry.runsOn executor).filter fun run =>
    !run.stopping && !listed.contains run.job.id).map (·.job.id)

variable [Quantity κ]

/-- The run shown when an executor hosts a job that is not known. -/
def stranger (job executor : String) : Run κ :=
  { job := { id := job, cost := 0 }, executor := some executor, ordinal := 0 }

/-- Bring one hosted job in line. -/
def host (s : Scheduler κ) (executor : String) (revision : UInt64) (job : String)
    (now : Instant) : Scheduler κ × Reply :=
  match s.registry.runs.get? job with
  | none => (s.report .unknownJob (stranger job executor), .ok ())
  | some run =>
    if run.stopping || run.isBoundTo executor then (s, .ok ())
    else if run.executor.isSome then s.stopRun job false now
    else if admits s.registry s.config executor run.job.cost now then
      ((s.modifyRun job fun run => (run.bind executor revision).adopt now).enter job .running now,
        .ok ())
    else (s.modifyRun job fun run => run.bind executor revision).stopRun job false now

/-- Bring hosted jobs in line one after the other, up to the first refusal. -/
def hostAll (s : Scheduler κ) (executor : String) (revision : UInt64) (now : Instant) :
    List String → Scheduler κ × Reply
  | [] => (s, .ok ())
  | job :: jobs =>
    match s.host executor revision job now with
    | (s, .ok ()) => s.hostAll executor revision now jobs
    | (s, .error e) => (s, .error e)

/-- An executor reports the full list of jobs it hosts. -/
def jobsOnExecutor (s : Scheduler κ) (executor : String) (jobs : List String) (now : Instant) :
    Scheduler κ × Reply :=
  match s.registry.executor? executor with
  | none => (s, .error (.executorNotFound executor))
  | some e =>
    let hosted := firstOccurrences jobs
    let s := (s.missingFrom executor hosted).foldl (·.forget · now) s
    s.hostAll executor e.revision now hosted

end Scheduler

end Dispatch
