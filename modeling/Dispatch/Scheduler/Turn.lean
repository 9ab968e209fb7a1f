import Dispatch.Scheduler.HostReport

/-! # Turns of the control loop

While it serves, the loop takes one event at a time: a call came back, a request is taken, more is
to be done at once, or it is time to look again.  Each turn ends with one look at the plan, of which
at most one action is carried out, and with the replies.  A check of the registry is answered at the
end of the first turn that leaves nothing to be done at once.

When the loop is left, it drains: no more requests are taken, every run is stopped, and the loop
ends when all calls have come back.
-/

namespace Dispatch

/-- What a turn starts with. -/
inductive Event (κ : Type)
  | completion (c : Completion)
  | request (ticket : Ticket) (command : Command κ)
  /-- There may be more to do at once. -/
  | refresh
  /-- The instant to look again has come. -/
  | timer

namespace Scheduler

variable {κ : Type} [Quantity κ]

/-- Replace the registry, if the operation on it was not refused. -/
def withRegistry (s : Scheduler κ) (r : Except SchedulerError (Registry κ)) :
    Scheduler κ × Reply :=
  match r with
  | .ok r => ({ s with registry := r }, .ok ())
  | .error e => (s, .error e)

/-- Carry out a command. -/
def handle (s : Scheduler κ) (command : Command κ) (now : Instant) : Scheduler κ × Reply :=
  match command with
  | .addJob job =>
    match s.registry.addJob job with
    | .error e => (s, .error e)
    | .ok r =>
      (({ s with registry := r }.enter job.id .existing now).nameJob job.id job.name, .ok ())
  | .removeJob id => s.stopRun id true now
  | .stopJob id => s.stopRun id false now
  | .changeJob job =>
    match s.registry.changeJob job with
    | .error e => (s, .error e)
    | .ok r => ({ s with registry := r }.nameJob job.id job.name, .ok ())
  | .jobIsRunning id => s.confirmRun id now
  | .addExecutor e => s.withRegistry (s.registry.addExecutor e now)
  | .removeExecutor id => s.withRegistry (s.registry.removeExecutor id)
  | .changeExecutor e => s.withRegistry ((s.registry.changeExecutor e).map Prod.fst)
  | .executorIsAlive id => s.withRegistry (s.registry.keepAlive id now)
  | .jobsOnExecutor executor jobs => s.jobsOnExecutor executor jobs now
  | .maxJobs count => ({ s with config := { s.config with maxJobs := count } }, .ok ())
  | .refresh => (s, .ok ())
  | .checkInvariants => (s, s.registry.verify s.config)

omit [Quantity κ] in
/-- Report a pending job for which there is no room. -/
def reportNoRoom (s : Scheduler κ) (job : String) : Scheduler κ :=
  match s.registry.runs.get? job with
  | none => s
  | some run => s.report .noRoom run

/-- Look at the plan once and carry out its action, if it has one. -/
def reconcile (s : Scheduler κ) (now : Instant) : Scheduler κ :=
  let p := plan s.registry s.config now
  let s := p.unplaceable.foldl (·.reportNoRoom ·) s
  match p.action with
  | some (.stop job _) => { (s.stopRun job false now).1 with refreshDue := true }
  | some (.start job executor) => { (s.startRun job executor now).1 with refreshDue := true }
  | none => { s with wakeAt := p.wakeAt }

/-- Publish the summaries of the executors. -/
def publish (s : Scheduler κ) (now : Instant) : Scheduler κ :=
  { s with summaries := Dispatch.summaries s.registry s.config now }

omit [Quantity κ] in
/-- Give several requests the same answer. -/
def answerAll (s : Scheduler κ) (tickets : List Ticket) (reply : Reply) : Scheduler κ :=
  tickets.foldl (·.answer · reply) s

/-- Answer the waiting checks, unless there may be more to do at once. -/
def answerChecks (s : Scheduler κ) : Scheduler κ :=
  if s.refreshDue then s
  else
    { s with checksWaiting := [] }.answerAll s.checksWaiting (s.registry.verify s.config)

/-- Take in an event.  The reply of a request is held back until the end of the turn. -/
def accept (s : Scheduler κ) (e : Event κ) (now : Instant) :
    Scheduler κ × Option (Ticket × Reply) :=
  match e with
  | .completion c => (s.complete c now, none)
  | .request ticket .checkInvariants =>
    ({ s with checksWaiting := s.checksWaiting ++ [ticket] }, none)
  | .request ticket command =>
    let (s, reply) := s.handle command now
    (s, some (ticket, reply))
  | .refresh => (s, none)
  | .timer => ({ s with wakeAt := none }, none)

/-- A turn without the answers to waiting checks.  The clock is read three times: when the event is
taken in, when the plan is looked at, and when the summaries are published. -/
def pass (s : Scheduler κ) (e : Event κ) (heard looked shown : Instant) : Scheduler κ :=
  let (s, held) := s.accept e heard
  let s := ({ s with refreshDue := false }.reconcile looked).publish shown
  match held with
  | none => s
  | some (ticket, reply) => s.answer ticket reply

/-- One turn of the loop, with the three instants that the clock shows meanwhile. -/
def turnAt (s : Scheduler κ) (e : Event κ) (heard looked shown : Instant) : Scheduler κ :=
  (s.pass e heard looked shown).answerChecks

/-- One turn of the loop in which no time passes. -/
def turn (s : Scheduler κ) (e : Event κ) (now : Instant) : Scheduler κ := s.turnAt e now now now

/-! ### Draining -/

omit [Quantity κ] in
/-- The jobs bound to an executor and not being stopped. -/
def boundJobs (s : Scheduler κ) : List String :=
  (s.registry.allRuns.filter fun run => run.executor.isSome && !run.stopping).map (·.job.id)

/-- Stop every run that is still bound; the loop ends when no call is under way. -/
def drainPass (s : Scheduler κ) (looked shown : Instant) : Scheduler κ :=
  let s := (s.boundJobs.foldl (fun s job => (s.stopRun job false looked).1) s).publish shown
  if s.inFlight = 0 then { s with stage := .ended } else s

/-- Leave the loop: requests in line and waiting checks are turned away, and draining begins. -/
def leaveAt (s : Scheduler κ) (queued : List Ticket) (looked shown : Instant) : Scheduler κ :=
  let s := s.answerAll (queued ++ s.checksWaiting) (.error .shutdown)
  { s with stage := .draining, checksWaiting := [] }.drainPass looked shown

/-- Leave the loop while no time passes. -/
def leave (s : Scheduler κ) (queued : List Ticket) (now : Instant) : Scheduler κ :=
  s.leaveAt queued now now

/-- A call came back while draining; the clock is read as often as in a turn. -/
def drainTurnAt (s : Scheduler κ) (c : Completion) (heard looked shown : Instant) : Scheduler κ :=
  (s.complete c heard).drainPass looked shown

/-- A call came back while draining, and no time passes. -/
def drainTurn (s : Scheduler κ) (c : Completion) (now : Instant) : Scheduler κ :=
  s.drainTurnAt c now now now

end Scheduler

end Dispatch
