/-! # What can go wrong

`SchedulerError` is the reason why a request is refused, `CallError` the reason why a start or
stop call failed.  Each has one wording.
-/

namespace Dispatch

/-- Why a request is refused. -/
inductive SchedulerError
  | jobExists (id : String)
  | jobNotFound (id : String)
  | executorExists (id : String)
  | executorNotFound (id : String)
  | invalidJob (reason : String)
  | invalidExecutor (reason : String)
  | invalidConfig (reason : String)
  | shutdown
  | invariantViolated (violation : String)
deriving DecidableEq, Repr

/-- The wording of a refusal. -/
def SchedulerError.message : SchedulerError → String
  | .jobExists id => "Job already exists: " ++ id
  | .jobNotFound id => "Job not found: " ++ id
  | .executorExists id => "Executor already exists: " ++ id
  | .executorNotFound id => "Executor not found: " ++ id
  | .invalidJob reason => "Invalid job: " ++ reason
  | .invalidExecutor reason => "Invalid executor: " ++ reason
  | .invalidConfig reason => "Invalid configuration: " ++ reason
  | .shutdown => "Scheduler is shut down"
  | .invariantViolated violation => "Invariant violated: " ++ violation

/-- Why a start or stop call failed. -/
inductive CallError
  | failed (reason : String)
  /-- The scheduler gave up waiting. -/
  | timeout
  | panicked (text : String)
  | cancelled
deriving DecidableEq, Repr

/-- The wording of a failed call. -/
def CallError.message : CallError → String
  | .failed reason => reason
  | .timeout => "Call exceeded its deadline"
  | .panicked text => "Call panicked: " ++ text
  | .cancelled => "Call cancelled"

/-- What a start or stop call came to. -/
abbrev CallResult := Except CallError Unit

/-- What a request came to. -/
abbrev Reply := Except SchedulerError Unit

end Dispatch
