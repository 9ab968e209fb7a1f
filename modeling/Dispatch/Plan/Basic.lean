import Dispatch.Plan.Balance
import Dispatch.Plan.Placement
import Dispatch.Plan.Stopping
import Dispatch.Plan.Wake

/-! # The planner

`plan` looks at the registry at one instant and names at most one action: a stop, first of a run
that may not stay, then of a run above the job cap, then of a run that is better off elsewhere; or
else a start.  A plan without action says when to look again.  Nothing is changed here.
-/

namespace Dispatch

/-- What the planner wants done. -/
inductive Action
  | stop (job : String) (reason : StopReason)
  | start (job : String) (executor : String)
deriving DecidableEq, Repr

/-- The outcome of one look at the registry. -/
structure Plan where
  action : Option Action := none
  /-- The pending jobs, of those looked at, for which no usable executor has room. -/
  unplaceable : List String := []
  /-- When a plan without action may change. -/
  wakeAt : Option Instant := none
deriving DecidableEq, Repr

variable {κ : Type} [Quantity κ]

/-- The stop that comes before any start, if there is one. -/
def plannedStop? (registry : Registry κ) (config : Config κ) (now : Instant) : Option Action :=
  let snapshot := Snapshot.ofRegistry registry now config.aliveWindow
  let runs := registry.allRuns
  let unrun := unrunCost runs
  let forced := runs.findSome? fun run =>
    (run.mustStop? registry snapshot config unrun now).map fun reason =>
      Action.stop run.job.id reason
  let surplus := (overCap? runs registry.startedCount config).map fun run =>
    Action.stop run.job.id .overJobLimit
  let balancing :=
    if runs.any (·.ranAt.isNone) then none
    else (balanceMove? runs snapshot config).map fun move =>
      Action.stop move.run.job.id (.loadBalance move.target)
  forced.or (surplus.or balancing)

/-- What to do at an instant. -/
def plan (registry : Registry κ) (config : Config κ) (now : Instant) : Plan :=
  match plannedStop? registry config now with
  | some action => { action := some action }
  | none =>
    let snapshot := Snapshot.ofRegistry registry now config.aliveWindow
    let line := waitingLine registry.allRuns
    let started := registry.startedCount
    match firstPlaced (fun run => place snapshot config started now run.job.cost) line with
    | (unplaceable, some (run, executor)) =>
      { action := some (.start run.job.id executor), unplaceable }
    | (unplaceable, none) =>
      { unplaceable, wakeAt := nextWake registry snapshot config now (!line.isEmpty) }

end Dispatch
