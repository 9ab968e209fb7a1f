import Dispatch.Scheduler.Turn
import Dispatch.Simulation.Hosting

/-! # A scheduler on virtual time

A `World` is a scheduler together with everything it talks to: the line of requests, the calls under
way, the executors that answer them, and senders that keep executors alive.  Time is virtual and
counted in milliseconds; it passes only from one timer to the next.

The loop goes on taking turns as long as there is something to take (`World.loopStep?`), and only
when it waits does the rest of the world move (`World.tend`): calls issued begin, calls whose time
is up come back, and keepalives are sent.  Outcomes that arise at one instant come back in the order
in which their calls were issued.
-/

namespace Dispatch

/-- A call under way. -/
structure Errand (κ : Type) where
  /-- Calls are numbered in the order of issue. -/
  number : Nat
  call : Call κ
  begun : Bool := false
  /-- When the scheduler gives up waiting. -/
  giveUpAt : Option Nat := none
  /-- When a simulated executor is done. -/
  doneAt : Option Nat := none
  /-- Whether the scheduler has given up waiting. -/
  timedOut : Bool := false
  /-- Whether the cancellation of the call has been shown. -/
  shown : Bool := false

/-- Who answers the calls. -/
inductive Crew
  /-- Calls wait until they are answered from outside; they may return when cancelled. -/
  | scripted (obeysCancel : Bool)
  | simulated (simulation : Simulation)

/-- A sender that tells the scheduler again and again that an executor is alive. -/
structure Keepalive where
  executor : String
  period : Duration
  /-- When the next word is due, in nanoseconds. -/
  next : Duration
  /-- The request that is not yet answered. -/
  awaiting : Option Ticket := none
  cancelled : Bool := false
  ended : Bool := false
  /-- Whether no later sender was set up for the same executor. -/
  latest : Bool := true

namespace Keepalive

/-- A sender with the given period, of at least a millisecond, whose first word is due now. -/
def every (executor : String) (period : Duration) (now : Nat) : Keepalive :=
  { executor, period := max period (Duration.ofMillis 1), next := Duration.ofMillis now }

/-- The period that keeps an executor alive under an alive duration. -/
def periodFor (alive : Duration) : Duration := alive / 2

/-- When the sender acts next, if it waits for the time. -/
def dueAt (k : Keepalive) : Option Nat :=
  if k.ended || k.awaiting.isSome then none else some k.next.ceilMillis

end Keepalive

/-- A situation and when it was reported. -/
structure Incident (κ : Type) where
  time : Instant
  kind : Situation
  run : Run κ
  cause : Option CallError

/-- A scheduler and its surroundings. -/
structure World (κ : Type) where
  scheduler : Scheduler κ
  crew : Crew
  /-- Virtual time in milliseconds. -/
  millis : Nat := 0
  /-- What the clock of the scheduler shows, when it does not follow virtual time. -/
  manualClock : Option Nat := none
  requests : List (Ticket × Command κ) := []
  /-- Requests that do not fit into the line. -/
  backlog : List (Ticket × Command κ) := []
  completions : List Completion := []
  shutdownAsked : Bool := false
  /-- Whether there is an owner who may still send requests. -/
  owned : Bool := true
  /-- When the timer of the loop goes off. -/
  timerAt : Option Nat := none
  /-- The calls under way, in the order of issue. -/
  errands : List (Errand κ) := []
  callCount : Nat := 0
  /-- Calls issued so far, the latest first. -/
  callLog : List (Nat × Call κ) := []
  /-- In the order in which their timers were set. -/
  keepalives : List Keepalive := []
  nextTicket : Ticket := 0
  replies : List (Ticket × Reply) := []
  /-- Situations reported so far, the latest first. -/
  incidents : List (Incident κ) := []
  /-- Numbers of cancelled calls that returned by themselves. -/
  withdrawn : List Nat := []

namespace World

variable {κ : Type}

/-- What the clock of the scheduler shows. -/
def clock (w : World κ) : Instant := Duration.ofMillis (w.manualClock.getD w.millis)

/-- Whether the loop has ended. -/
def isOver (w : World κ) : Bool := w.scheduler.stage == Stage.ended

/-! ### What the scheduler says -/

/-- Take in one thing that the scheduler says. -/
def hear (w : World κ) : Output κ → World κ
  | .situation kind run cause =>
    { w with
      incidents := { time := w.clock, kind, run, cause } :: w.incidents
      crew :=
        match w.crew with
        | .simulated simulation => .simulated (simulation.note kind)
        | crew => crew }
  | .call call =>
    { w with
      errands := w.errands ++ [{ number := w.callCount, call }]
      callLog := (w.callCount, call) :: w.callLog
      callCount := w.callCount + 1 }
  | .reply ticket reply => { w with replies := w.replies ++ [(ticket, reply)] }

/-- The world after the scheduler has moved.  The timer is set anew. -/
def settleTurn (w : World κ) (s : Scheduler κ) : World κ :=
  let timerAt :=
    if s.stage = .serving then
      s.wakeAt.map fun wakeAt => w.millis + (wakeAt.since w.clock).ceilMillis
    else none
  s.outbox.foldl hear { w with scheduler := { s with outbox := [] }, timerAt }

/-! ### Requests -/

/-- Put a request into the line, or behind it when it is full.  A scheduler that no longer serves
turns it away. -/
def offer (w : World κ) (command : Command κ) : Ticket × World κ :=
  let ticket := w.nextTicket
  let w := { w with nextTicket := ticket + 1 }
  (ticket,
    if w.scheduler.stage ≠ .serving then
      { w with replies := w.replies ++ [(ticket, .error .shutdown)] }
    else if w.requests.length < w.scheduler.config.queueCapacity && w.backlog.isEmpty then
      { w with requests := w.requests ++ [(ticket, command)] }
    else { w with backlog := w.backlog ++ [(ticket, command)] })

/-- Take the reply of a request, if there is one. -/
def collect (w : World κ) (ticket : Ticket) : Option Reply × World κ :=
  (w.replies.lookup ticket, { w with replies := w.replies.filter (·.1 ≠ ticket) })

/-- Let requests move up from behind the line. -/
def moveUp (w : World κ) : World κ :=
  let room := w.scheduler.config.queueCapacity - w.requests.length
  { w with requests := w.requests ++ w.backlog.take room, backlog := w.backlog.drop room }

/-- Whether nobody is left who could send a request. -/
def isAbandoned (w : World κ) : Bool :=
  !w.owned && w.backlog.isEmpty && w.keepalives.all (·.ended)

/-! ### The loop -/

section Loop

variable [Quantity κ]

/-- Leave the loop and begin to drain. -/
def leave (w : World κ) : World κ :=
  let queued := (w.requests ++ w.backlog).map Prod.fst
  { w with requests := [], backlog := [] }.settleTurn (w.scheduler.leave queued w.clock)

/-- One turn with an event. -/
def take (w : World κ) (e : Event κ) : World κ := w.settleTurn (w.scheduler.turn e w.clock)

/-- The next move of the loop, if there is something for it to take: a shutdown first, then a call
that came back, a request, the end of all requests, more to be done at once, and the timer. -/
def loopStep? (w : World κ) : Option (World κ) :=
  match w.scheduler.stage with
  | .ended => none
  | .draining =>
    match w.completions with
    | [] => none
    | c :: completions =>
      some ({ w with completions }.settleTurn (w.scheduler.drainTurn c w.clock))
  | .serving =>
    if w.shutdownAsked then some w.leave
    else
      match w.completions, w.requests with
      | c :: completions, _ => some ({ w with completions }.take (.completion c))
      | [], (ticket, command) :: requests =>
        some ({ w with requests }.take (.request ticket command))
      | [], [] =>
        if w.isAbandoned then some w.leave
        else if w.scheduler.refreshDue then some (w.take .refresh)
        else if w.timerAt.any (· ≤ w.millis) then some (w.take .timer)
        else none

end Loop

/-! ### The surroundings -/

/-- Whether the call has been told to give up. -/
def isCancelled (w : World κ) (e : Errand κ) : Bool :=
  e.timedOut || (w.shutdownAsked && !e.call.final)

/-- A call comes back to the scheduler. -/
def comeBack (w : World κ) (e : Errand κ) (result : CallResult) : World κ :=
  { w with completions := w.completions ++
      [{ kind := e.call.kind, job := e.call.run.job.id, attempt := e.call.run.attempt, result }] }

/-- A call is answered.  A scheduler that has given up waiting does not hear of it. -/
def returned (w : World κ) (e : Errand κ) (result : CallResult) : World κ :=
  if e.timedOut then w else w.comeBack e result

/-- The call with its timers set. -/
def begin (w : World κ) (e : Errand κ) : Errand κ :=
  if e.begun then e
  else
    { e with
      begun := true
      giveUpAt := e.call.limit.map fun limit => w.millis + limit.ceilMillis
      doneAt :=
        match w.crew with
        | .scripted _ => none
        | .simulated simulation =>
          some (w.millis + ((simulation.latency? e.call.kind e.call.run).getD 0).ceilMillis) }

/-- Give up waiting for a call whose time is up. -/
def giveUp (w : World κ) (e : Errand κ) : World κ × Errand κ :=
  if !e.timedOut && e.giveUpAt.any (· ≤ w.millis) then
    (w.comeBack e (.error .timeout), { e with timedOut := true })
  else (w, e)

/-- Let a call make progress; it stays under way unless it returns. -/
def tendErrand (w : World κ) (e : Errand κ) : World κ :=
  let (w, e) := w.giveUp (w.begin e)
  let stay := { w with errands := w.errands ++ [e] }
  match w.crew with
  | .scripted obeysCancel =>
    if obeysCancel && w.isCancelled e then
      let w := if e.shown then w else { w with withdrawn := w.withdrawn ++ [e.number] }
      w.returned e (.error .cancelled)
    else stay
  | .simulated simulation =>
    if w.isCancelled e then w.returned e (.error .cancelled)
    else if e.doneAt.any (· ≤ w.millis) then
      let (simulation, result) := simulation.finish e.call.kind e.call.run
      { w with crew := .simulated simulation }.returned e result
    else stay

/-- Let a sender take in the answer that it waits for; a refusal ends it. -/
def hearBack (w : World κ) (k : Keepalive) : World κ × Keepalive :=
  match k.awaiting with
  | none => (w, k)
  | some ticket =>
    match w.collect ticket with
    | (none, w) => (w, k)
    | (some (.ok ()), w) => (w, { k with awaiting := none })
    | (some (.error _), w) => (w, { k with awaiting := none, ended := true })

/-- Let a sender send the next word when it is due; it ends when it is cancelled. -/
def sendWord (w : World κ) (k : Keepalive) : World κ × Keepalive :=
  if k.ended || k.awaiting.isSome then (w, k)
  else if k.cancelled then (w, { k with ended := true })
  else if k.next.ceilMillis ≤ w.millis then
    let (ticket, w) := w.offer (.executorIsAlive k.executor)
    w.hearBack { k with awaiting := some ticket, next := k.next + k.period }
  else (w, k)

/-- Let all senders make progress.  A sender whose timer is set anew goes to the end. -/
def tendKeepalives (w : World κ) : World κ :=
  let (w, settled, renewed) :=
    w.keepalives.foldl
      (fun (w, settled, renewed) k =>
        let (w, k') := w.hearBack k
        let (w, k') := w.sendWord k'
        if k.awaiting.isSome && k'.awaiting.isNone then (w, settled, renewed ++ [k'])
        else (w, settled ++ [k'], renewed))
      ({ w with keepalives := [] }, [], [])
  { w with keepalives := settled ++ renewed }

/-- Let everything but the loop make progress at this instant. -/
def tend (w : World κ) : World κ :=
  (w.errands.foldl tendErrand { w with errands := [] }).moveUp.tendKeepalives

section Settling

variable [Quantity κ]

/-- Let everything happen that is due at this instant, in at most `fuel` moves. -/
def settleWithin : Nat → World κ → World κ
  | 0, w => w
  | fuel + 1, w =>
    match w.loopStep? with
    | some w => settleWithin fuel w
    | none =>
      let w := w.tend
      match w.loopStep? with
      | some w => settleWithin fuel w
      | none => w

/-- Let everything happen that is due at this instant.  A world that finds no rest, such as one in
which every start fails at once, is left after many moves. -/
def settle (w : World κ) : World κ := settleWithin 1000000 w

/-- The next instant at which a timer goes off. -/
def nextDue? (w : World κ) : Option Nat :=
  let due :=
    w.timerAt.toList ++
      w.errands.flatMap (fun e =>
        (if e.timedOut then [] else e.giveUpAt.toList) ++ e.doneAt.toList) ++
      w.keepalives.filterMap (·.dueAt)
  (due.filter (w.millis < ·)).min?

/-- Let time pass up to an instant and let everything happen that is due then. -/
def arrive (w : World κ) (millis : Nat) : World κ := { w with millis }.settle

/-- Let time pass from timer to timer as long as they go off before `target`, at most `fuel` of
them. -/
def runWithin : Nat → Nat → World κ → World κ
  | 0, _, w => w
  | fuel + 1, target, w =>
    match w.nextDue? with
    | none => w
    | some t => if t < target then runWithin fuel target (w.arrive t) else w

/-- Let time pass up to `target`; what is due at that very instant does not happen yet. -/
def runUntil (w : World κ) (target : Nat) : World κ :=
  { runWithin (target - w.millis) target w with millis := target }

end Settling

/-- Set up a sender that keeps an executor alive. -/
def keepAlive (w : World κ) (executor : String) (period : Duration) : World κ :=
  let others := w.keepalives.map fun k =>
    if k.executor = executor then { k with latest := false } else k
  { w with keepalives := others ++ [Keepalive.every executor period w.millis] }

/-- The sender set up last for each executor. -/
def latestKeepalives (w : World κ) : List Keepalive := w.keepalives.filter (·.latest)

/-- A new world in which nothing has happened. -/
def start (config : Config κ) (crew : Crew) (manualClock : Option Nat := none) : World κ :=
  { scheduler := { config }, crew, manualClock }

end World

end Dispatch
