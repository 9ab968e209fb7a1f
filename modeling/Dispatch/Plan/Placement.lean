import Dispatch.Capacity
import Dispatch.Config
import Dispatch.Selection

/-! # Where a pending run goes

`place` chooses an executor for a pending run: it must have room, be allowed to start one more run
now, and among those have the fewest runs starting, then the smallest part of its capacity in use,
then have been added first.  `admits` asks the same of one given executor, without the limits on
starting.
-/

namespace Dispatch

/-- What is to be done with a pending run. -/
inductive Placement
  | on (executor : String)
  /-- Some executor has room, but may not take the run now. -/
  | throttled
  | noRoom
deriving DecidableEq, Repr

variable {κ : Type} [Quantity κ]

namespace Capacity

omit [Quantity κ] in
/-- Whether one more run may be started on the executor now. -/
def mayStart (c : Capacity κ) (config : Config κ) (now : Instant) : Bool :=
  c.startingCount < config.simultaneousStarts &&
    (config.simultaneousStarts ≤ 1 ||
      match c.lastStart with
      | none => true
      | some last => config.startGap ≤ now.since last)

/-- Whether the executor is at most as busy as the other one. -/
def noBusierThan (a b : Capacity κ) : Bool :=
  a.startingCount < b.startingCount ||
    (a.startingCount == b.startingCount && a.usedRatio ≤ b.usedRatio)

end Capacity

/-- Choose an executor for a run of the given cost, when `started` runs are started already. -/
def place (snapshot : Snapshot κ) (config : Config κ) (started : Nat) (now : Instant) (cost : κ) :
    Placement :=
  let roomy := snapshot.filter (!·.exceededBy cost)
  if roomy.isEmpty then .noRoom
  else if config.capReached started then .throttled
  else
    match pick (fun c held => !held.noBusierThan c) (roomy.filter (·.mayStart config now)) with
    | some c => .on c.executor
    | none => .throttled

/-- Whether an executor may take on a run of the given cost now: it is alive and not paused, has
room for it, and the job cap is not reached. -/
def admits (registry : Registry κ) (config : Config κ) (executor : String) (cost : κ)
    (now : Instant) : Bool :=
  !config.capReached registry.startedCount &&
    match (Snapshot.ofRegistry registry now config.aliveWindow).find executor with
    | some c => cost ≤ c.spare + Quantity.tolerance
    | none => false

omit [Quantity κ] in
/-- The order in which pending runs wait: those that were never stopped first, then by the time of
their stop, then by addition. -/
def Run.waitsBefore (a b : Run κ) : Bool :=
  match a.stoppedAt, b.stoppedAt with
  | none, none => a.ordinal ≤ b.ordinal
  | none, some _ => true
  | some _, none => false
  | some s, some t => s < t || (s == t && a.ordinal ≤ b.ordinal)

omit [Quantity κ] in
/-- The pending runs in the order in which they wait. -/
def waitingLine (runs : List (Run κ)) : List (Run κ) :=
  lineUp Run.waitsBefore (runs.filter (·.isPending))

omit [Quantity κ] in
/-- Walk along the waiting line up to the first run that can be placed.  The result has the jobs
passed by for which there is no room, and that run with its executor. -/
def firstPlaced (place : Run κ → Placement) :
    List (Run κ) → List String × Option (Run κ × String)
  | [] => ([], none)
  | run :: line =>
    match place run with
    | .on executor => ([], some (run, executor))
    | .throttled => firstPlaced place line
    | .noRoom =>
      let (passed, placed) := firstPlaced place line
      (run.job.id :: passed, placed)

end Dispatch
