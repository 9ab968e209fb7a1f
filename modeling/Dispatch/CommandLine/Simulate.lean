import Dispatch.CommandLine.Options
import Dispatch.Rehearsal.World
import Dispatch.Report.Documents
import Dispatch.Report.Tables

/-! # The simulation

Executors and jobs are added to a scheduler with simulated executors, one after the other.  Then
time passes, and the executors, the jobs and the situations reported are printed.
-/

namespace Dispatch

namespace World

variable {κ : Type} [Quantity κ]

/-- Send a request and let everything happen that follows.  A request that is refused ends the
simulation. -/
def request (w : World κ) (command : Command κ) : Except SchedulerError (World κ) :=
  let (ticket, w) := w.offer command
  match w.settle.collect ticket with
  | (some (.ok ()), w) => .ok w
  | (some (.error e), _) => .error e
  | (none, _) => .error .shutdown

end World

namespace SimulateOptions

/-- The settings of the scheduler. -/
def config (o : SimulateOptions) : Config Float where
  aliveDuration := Duration.ofMillis o.aliveMs
  simultaneousStarts := o.simultaneousStarts
  startGap := Duration.ofMillis o.startIntervalMs
  balanceAt := o.loadBalance
  slack := Duration.ofMillis o.slackMs
  callTimeout := o.callTimeoutMs.map Duration.ofMillis
  maxJobs := o.maxJobs
  runningOnStart := true

/-- The simulated executors. -/
def simulation (o : SimulateOptions) : Simulation where
  config :=
    { startLatency := Duration.ofMillis o.startLatencyMs
      stopLatency := Duration.ofMillis o.stopLatencyMs
      startsFail := failsAtRate o.failureRate }

/-- Add the `n`-th executor, and a sender that keeps it alive. -/
def enroll (o : SimulateOptions) (w : World Float) (n : Nat) :
    Except SchedulerError (World Float) :=
  let id := "Wrk" ++ toString n
  match w.request (.addExecutor { id, capacity := o.capacity }) with
  | .error e => .error e
  | .ok w =>
    if o.aliveMs = 0 then .ok w
    else .ok (w.keepAlive id (Keepalive.periodFor o.config.aliveDuration)).settle

/-- Add the `n`-th job. -/
def submit (o : SimulateOptions) (w : World Float) (n : Nat) :
    Except SchedulerError (World Float) :=
  let duration := Duration.ofSeconds (o.jobDurationSecs.getD 0)
  w.request (.addJob { id := "J" ++ toString n, duration, cost := o.jobCost })

/-- The world at the end of the simulation. -/
def run (o : SimulateOptions) : Except SchedulerError (World Float) := do
  o.config.validate
  let w := World.start o.config (.simulated o.simulation)
  let w ← (List.range' 1 o.executors).foldlM o.enroll w
  let w ← (List.range' 1 o.jobs).foldlM o.submit w
  return w.runUntil (w.millis + 1000 * o.runSecs)

/-- The situations reported, in alphabetical order, and how often each was. -/
def situations (w : World Float) : List (String × Nat) :=
  match w.crew with
  | .scripted _ => []
  | .simulated simulation =>
    lineUp (fun a b => a.1 ≤ b.1)
      (Situation.all.filterMap fun kind =>
        if simulation.count kind = 0 then none else some (kind.text, simulation.count kind))

/-- The outcome as tables. -/
def tables (w : World Float) : String :=
  executorTable w.scheduler.summaries ++ "\n" ++ jobTable (w.scheduler.timingsAt w.clock) ++
    "\n" ++ alignLeft 32 "SITUATION" ++ " COUNT\n" ++
    String.join ((situations w).map fun (text, n) => alignLeft 32 text ++ " " ++ toString n ++ "\n")

/-- The outcome as a document. -/
def document (w : World Float) : Json :=
  .object
    [("executors", executorsJson w.scheduler.summaries),
      ("jobs", jobsJson (w.scheduler.timingsAt w.clock)),
      ("situations", .object ((situations w).map fun (text, n) => (text, .nat n)))]

/-- What the simulation prints. -/
def printed (o : SimulateOptions) : Except SchedulerError String :=
  o.run.map fun w =>
    match o.output with
    | .table => tables w
    | .json => (document w).pretty ++ "\n"

end SimulateOptions

end Dispatch
