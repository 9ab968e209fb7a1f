import Dispatch.Plan.Basic
import Dispatch.Registry.Violation
import Dispatch.Situation
import Dispatch.Summary
import Dispatch.Timings

/-! # The scheduler

A `Scheduler` is everything that the control loop knows between two turns.  It talks to the outside
only by its `outbox`: situations for the owner, calls for the executors, and replies to requests,
in the order in which they arise.  Whoever drives the loop takes them from there.
-/

namespace Dispatch

/-- A request, as far as its contents go. -/
inductive Command (κ : Type)
  | addJob (job : Job κ)
  /-- Stop the job if it is on an executor, then forget it. -/
  | removeJob (id : String)
  /-- Stop the job; it stays known and may be placed again. -/
  | stopJob (id : String)
  | changeJob (job : Job κ)
  /-- The owner confirms that a started job is running. -/
  | jobIsRunning (id : String)
  | addExecutor (executor : Executor κ)
  | removeExecutor (id : String)
  | changeExecutor (executor : Executor κ)
  | executorIsAlive (id : String)
  /-- The executor hosts exactly these jobs. -/
  | jobsOnExecutor (executor : String) (jobs : List String)
  | maxJobs (count : Nat)
  /-- Look for something to do now. -/
  | refresh
  /-- Check the registry once nothing is left to do. -/
  | checkInvariants

/-- What a call asks of an executor. -/
inductive CallKind
  | start
  | stop
deriving DecidableEq, Repr

/-- A call to an executor. -/
structure Call (κ : Type) where
  kind : CallKind
  /-- The run as it was when the call was issued. -/
  run : Run κ
  /-- How long the scheduler waits for the call. -/
  limit : Option Duration
  /-- When it gives up, if there is such an instant. -/
  deadline : Option Instant
  /-- Whether the call was issued while draining; only the others are cancelled by a shutdown. -/
  final : Bool

/-- The outcome of a call, as it comes back to the scheduler. -/
structure Completion where
  kind : CallKind
  job : String
  attempt : Nat
  result : CallResult

/-- The mark by which a reply is matched with its request. -/
abbrev Ticket := Nat

/-- What the scheduler tells the outside. -/
inductive Output (κ : Type)
  | situation (kind : Situation) (run : Run κ) (cause : Option CallError)
  | call (call : Call κ)
  | reply (ticket : Ticket) (reply : Reply)

/-- What the control loop is at. -/
inductive Stage
  /-- Taking requests. -/
  | serving
  /-- Stopping every run and waiting for the calls still under way. -/
  | draining
  | ended
deriving DecidableEq, Repr

/-- The state of the control loop. -/
structure Scheduler (κ : Type) where
  config : Config κ
  registry : Registry κ := ∅
  timings : Table Timings := ∅
  /-- The summaries published last. -/
  summaries : List (ExecutorSummary κ) := []
  /-- The number of calls that have not come back. -/
  inFlight : Nat := 0
  /-- Whether there may be more to do at once. -/
  refreshDue : Bool := false
  wakeAt : Option Instant := none
  /-- Requests for a check of the registry that are not yet answered. -/
  checksWaiting : List Ticket := []
  stage : Stage := .serving
  outbox : List (Output κ) := []

namespace Scheduler

variable {κ : Type}

/-- Say something to the outside. -/
def emit (s : Scheduler κ) (o : Output κ) : Scheduler κ := { s with outbox := s.outbox ++ [o] }

/-- Report a situation. -/
def report (s : Scheduler κ) (kind : Situation) (run : Run κ) (cause : Option CallError := none) :
    Scheduler κ :=
  s.emit (.situation kind run cause)

/-- Issue a start or stop call for a run. -/
def issue (s : Scheduler κ) (kind : CallKind) (run : Run κ) (now : Instant) : Scheduler κ :=
  let limit := s.config.callTimeout
  { s with inFlight := s.inFlight + 1 }.emit
    (.call
      { kind, run, limit
        deadline := limit.bind now.after?
        final := s.stage == Stage.draining })

/-- Answer a request. -/
def answer (s : Scheduler κ) (ticket : Ticket) (reply : Reply) : Scheduler κ :=
  s.emit (.reply ticket reply)

/-- Note that a job enters a phase. -/
def enter (s : Scheduler κ) (job : String) (phase : Phase) (now : Instant) : Scheduler κ :=
  { s with timings := s.timings.update job {} (·.enter phase now) }

/-- Note the name of a job. -/
def nameJob (s : Scheduler κ) (job name : String) : Scheduler κ :=
  { s with timings := s.timings.update job {} ({ · with jobName := name }) }

/-- Note the name of the executor of a job. -/
def nameExecutor (s : Scheduler κ) (job name : String) : Scheduler κ :=
  { s with timings := s.timings.update job {} ({ · with executorName := name }) }

/-- Change the run of a job. -/
def modifyRun (s : Scheduler κ) (job : String) (f : Run κ → Run κ) : Scheduler κ :=
  { s with registry := s.registry.modifyRun job f }

/-- The time accounts of all jobs at an instant. -/
def timingsAt (s : Scheduler κ) (now : Instant) : List (String × Timings) :=
  s.timings.entries.map fun (id, t) => (id, t.settled now)

end Scheduler

end Dispatch
