import Dispatch.Capacity
import Dispatch.Config

/-! # When to look again

`nextWake` is the earliest instant at which a plan without action can change by the passing of time
alone: a run outlives its duration or the slack of its paused executor, the window of an executor
closes, or the gap between two starts is over.
-/

namespace Dispatch

variable {κ : Type}

/-- The instants at which the time of a run is up. -/
def Run.deadlines (run : Run κ) (registry : Registry κ) (slack : Duration) : List Instant :=
  match run.ranAt, run.executor with
  | some ranAt, some id =>
    if run.stopping then []
    else
      (if run.job.duration = 0 then []
        else (ranAt.after? (run.job.duration.saturatingAdd slack)).toList) ++
      (if (registry.executor? id).any (·.paused) then (ranAt.after? slack).toList else [])
  | _, _ => []

/-- The instants at which executors cease to be alive. -/
def aliveDeadlines (registry : Registry κ) (window : Option Duration) : List Instant :=
  match window with
  | none => []
  | some w => registry.executors.filterMap fun e => e.keptAliveAt.bind (·.after? w)

/-- The instants at which executors may start one more run. -/
def gapEnds (snapshot : Snapshot κ) (config : Config κ) : List Instant :=
  if 1 < config.simultaneousStarts then
    snapshot.filterMap fun c => c.lastStart.bind (·.after? config.startGap)
  else []

/-- The instants at which something falls due by the passing of time. -/
def dueInstants (registry : Registry κ) (snapshot : Snapshot κ) (config : Config κ)
    (anyWaiting : Bool) : List Instant :=
  registry.allRuns.flatMap (·.deadlines registry config.slack) ++
    aliveDeadlines registry config.aliveWindow ++
    if anyWaiting then gapEnds snapshot config else []

/-- The first instant after `now` at which something falls due. -/
def nextWake (registry : Registry κ) (snapshot : Snapshot κ) (config : Config κ) (now : Instant)
    (anyWaiting : Bool) : Option Instant :=
  ((dueInstants registry snapshot config anyWaiting).filter (now < ·)).min?

end Dispatch
