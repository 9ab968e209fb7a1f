import Dispatch.Scheduler.Basic

/-! # Simulated executors

Simulated executors take a fixed time for each call.  At the end of a start the job is hosted by the
executor of its run, at the end of a stop it no longer is.  A call that is cancelled before its time
is up has no effect.
-/

namespace Dispatch

/-- How simulated executors behave. -/
structure SimulationConfig where
  startLatency : Duration := Duration.ofMillis 50
  stopLatency : Duration := Duration.ofMillis 20
  /-- Whether every start fails. -/
  startsFail : Bool := false

/-- Whether starts fail at a failure rate.  Only the rates at which chance plays no part are
simulated: from one on every start fails, below it none does. -/
def failsAtRate (rate : Float) : Bool := 1.0 ≤ rate

/-- Simulated executors, with the jobs they host and the situations reported so far. -/
structure Simulation where
  config : SimulationConfig
  hosted : Table (List String) := ∅
  tally : List (Situation × Nat) := []

namespace Simulation

/-- The jobs an executor hosts. -/
def jobsOn (s : Simulation) (executor : String) : List String := (s.hosted.get? executor).getD []

/-- The number of jobs hosted, each counted once per executor. -/
def hostedCount (s : Simulation) : Nat :=
  s.hosted.values.foldl (fun n jobs => n + jobs.length) 0

/-- How often a situation was reported. -/
def count (s : Simulation) (kind : Situation) : Nat := (s.tally.lookup kind).getD 0

/-- Count a situation. -/
def note (s : Simulation) (kind : Situation) : Simulation :=
  { s with tally :=
      if s.tally.any (·.1 == kind) then
        s.tally.map fun (k, n) => if k = kind then (k, n + 1) else (k, n)
      else s.tally ++ [(kind, 1)] }

variable {κ : Type}

/-- How long a call takes; none when it fails at once, as the start of a run without an executor
does. -/
def latency? (s : Simulation) (kind : CallKind) (run : Run κ) : Option Duration :=
  match kind, run.executor with
  | .start, none => none
  | .start, some _ => some s.config.startLatency
  | .stop, _ => some s.config.stopLatency

/-- What a call does when its time is up. -/
def finish (s : Simulation) (kind : CallKind) (run : Run κ) : Simulation × CallResult :=
  match kind, run.executor with
  | .start, none => (s, .error (.failed "run has no executor"))
  | .stop, none => (s, .ok ())
  | .start, some executor =>
    if s.config.startsFail then
      (s, .error (.failed ("simulated start failure of " ++ run.job.id ++ " on " ++ executor)))
    else
      ({ s with hosted := s.hosted.update executor [] fun jobs =>
            if jobs.contains run.job.id then jobs else jobs ++ [run.job.id] }, .ok ())
  | .stop, some executor =>
    ({ s with hosted := s.hosted.modify executor (·.filter (· ≠ run.job.id)) }, .ok ())

/-- A whole call, with the time it takes; it may be cancelled before it begins. -/
def call (s : Simulation) (kind : CallKind) (run : Run κ) (cancelled : Bool) :
    Simulation × CallResult × Duration :=
  match s.latency? kind run with
  | some latency =>
    if cancelled then (s, .error .cancelled, 0)
    else
      let (s, result) := s.finish kind run
      (s, result, latency)
  | none =>
    let (s, result) := s.finish kind run
    (s, result, 0)

end Simulation

end Dispatch
