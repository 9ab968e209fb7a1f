/-! # Situations

A situation is a named event in the life of a job that the owner of the scheduler is told about.
-/

namespace Dispatch

/-- What happened to a job. -/
inductive Situation
  | jobStarted
  | jobRunning
  | jobStopped
  | jobEnded
  /-- No usable executor has room for the job. -/
  | noRoom
  /-- The stop call of the job failed. -/
  | stopFailed
  | startFailed
  /-- An executor hosts a job that is not known. -/
  | unknownJob
deriving DecidableEq, Repr

namespace Situation

/-- All situations. -/
def all : List Situation :=
  [jobStarted, jobRunning, jobStopped, jobEnded, noRoom, stopFailed, startFailed, unknownJob]

/-- The situation in words. -/
def text : Situation → String
  | jobStarted => "job started"
  | jobRunning => "job running"
  | jobStopped => "job stopped"
  | jobEnded => "job ended"
  | noRoom => "no workers fit to run job"
  | stopFailed => "remove job from executor failed"
  | startFailed => "error starting job"
  | unknownJob => "unknown job on executor"

/-- The situation as machine-readable reports name it. -/
def key : Situation → String
  | jobStarted => "JobStarted"
  | jobRunning => "JobRunning"
  | jobStopped => "JobStopped"
  | jobEnded => "JobEnded"
  | noRoom => "NoWorkersToRunJob"
  | stopFailed => "RemoveJobFromExecutorFailed"
  | startFailed => "ErrorStartingJob"
  | unknownJob => "UnknownJobOnExecutor"

end Situation

end Dispatch
