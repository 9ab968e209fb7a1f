import Dispatch.Capacity
import Dispatch.Config
import Dispatch.Selection

/-! # Which runs have to stop

`Run.mustStop?` gives the reason why a bound run may not stay where it is, and `overCap?` names the
run that goes first when more runs are started than the job cap allows.
-/

namespace Dispatch

/-- Why a run is stopped by the planner. -/
inductive StopReason
  | executorMissing
  | executorChanged
  | executorDead
  | executorPaused
  | deadlineReached
  | jobChanged
  /-- More runs are started than the job cap allows. -/
  | overJobLimit
  /-- The job is better off elsewhere. -/
  | loadBalance (target : String)
deriving DecidableEq, Repr

/-- The reason in words. -/
def StopReason.text : StopReason → String
  | .executorMissing => "executor missing"
  | .executorChanged => "executor changed"
  | .executorDead => "executor dead"
  | .executorPaused => "executor paused"
  | .deadlineReached => "deadline reached"
  | .jobChanged => "job changed"
  | .overJobLimit => "over job limit"
  | .loadBalance target => "load balance to " ++ target

variable {κ : Type} [Quantity κ]

namespace Run

omit [Quantity κ] in
/-- Whether the run is still to get capacity: it is not running and not on its way out. -/
def isUnrun (run : Run κ) : Bool := !run.removing && run.ranAt.isNone

/-- Whether a run may stay on its paused executor: within its slack, and as long as the other
executors have room for it besides everything that is still to run. -/
def mayDrain (run : Run κ) (executor : String) (snapshot : Snapshot κ) (config : Config κ)
    (unrunCost : κ) (now : Instant) : Bool :=
  let own := if run.isUnrun then run.job.cost else 0
  let elsewhere := snapshot.spareExcluding executor - (unrunCost - own)
  config.slack ≠ 0 && !decide (elsewhere + Quantity.tolerance < run.job.cost) &&
    match run.ranAt with
    | some ranAt => now.since ranAt < config.slack
    | none => false

omit [Quantity κ] in
/-- Whether the run has outlived its duration and the slack. -/
def isOverdue (run : Run κ) (config : Config κ) (now : Instant) : Bool :=
  match run.ranAt with
  | none => false
  | some ranAt =>
    run.job.duration ≠ 0 && run.job.duration.saturatingAdd config.slack ≤ now.since ranAt

/-- Why a bound run has to stop now, if it has to.  `unrunCost` is the cost of everything that is
still to run, the run itself included. -/
def mustStop? (run : Run κ) (registry : Registry κ) (snapshot : Snapshot κ) (config : Config κ)
    (unrunCost : κ) (now : Instant) : Option StopReason :=
  match run.executor with
  | none => none
  | some id =>
    if run.stopping then none
    else
      match registry.executor? id with
      | none => some .executorMissing
      | some e =>
        if run.executorRevision ≠ some e.revision then some .executorChanged
        else if !e.isAlive now config.aliveWindow then some .executorDead
        else if (registry.jobs.get? run.job.id).map (·.revision) ≠ some run.job.revision then
          some .jobChanged
        else if e.paused then
          if run.mayDrain id snapshot config unrunCost now then none else some .executorPaused
        else if run.isOverdue config now then some .deadlineReached
        else none

omit [Quantity κ] in
/-- Whether the run was started after the other one, the order of addition deciding a tie. -/
def startedAfter (a b : Run κ) : Bool :=
  match a.startedAt, b.startedAt with
  | some s, some t => t < s || (s == t && b.ordinal ≤ a.ordinal)
  | some _, none => true
  | none, some _ => false
  | none, none => b.ordinal ≤ a.ordinal

end Run

/-- The cost of everything that is still to run. -/
def unrunCost (runs : List (Run κ)) : κ :=
  Quantity.sum ((runs.filter (·.isUnrun)).map (·.job.cost))

omit [Quantity κ] in
/-- The run started last, when more runs are started than the job cap allows. -/
def overCap? (runs : List (Run κ)) (started : Nat) (config : Config κ) : Option (Run κ) :=
  if config.maxJobs = 0 || started ≤ config.maxJobs then none
  else pick Run.startedAfter (runs.filter fun r => !r.stopping && r.startedAt.isSome)

end Dispatch
