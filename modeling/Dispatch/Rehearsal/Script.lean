import Dispatch.Rehearsal.World

/-! # Rehearsing with scripted executors

A `Rehearsal` is a world whose calls are answered from outside.  Some answers are given by hand,
others follow a script: the next line for the start calls of a job, or else the standing answer for
starts or stops.  Standing answers are given as soon as a call waits for one, the earliest call
first, and at most so many per scene, so that a job that fails for ever does not stop the play.
-/

namespace Dispatch

/-- A world with a script. -/
structure Rehearsal (κ : Type) where
  world : World κ
  /-- The standing answer to start calls. -/
  onStart : Option CallResult := none
  /-- The standing answer to stop calls. -/
  onStop : Option CallResult := none
  /-- Answers to the start calls of a job; the line that is no answer holds back the call. -/
  script : Table (List (Option CallResult)) := ∅
  /-- How many standing answers may still be given in this scene. -/
  answersLeft : Nat := 0

namespace Rehearsal

variable {κ : Type}

/-- The number of standing answers in one scene. -/
def answersPerScene : Nat := 30

/-- Begin a scene. -/
def beginScene (r : Rehearsal κ) : Rehearsal κ := { r with answersLeft := answersPerScene }

/-- The line of the script for a call, if there is one: the answer it gives, if any. -/
def line? (r : Rehearsal κ) (e : Errand κ) : Option (Option CallResult) :=
  match e.call.kind with
  | .stop => none
  | .start => (r.script.get? e.call.run.job.id).bind List.head?

/-- The standing answer for a call, if there is one. -/
def standing? (r : Rehearsal κ) (e : Errand κ) : Option CallResult :=
  match r.line? e, e.call.kind with
  | some answer, _ => answer
  | none, .start => r.onStart
  | none, .stop => r.onStop

/-- Strike out the line of the script for a call. -/
def strike (r : Rehearsal κ) (e : Errand κ) : Rehearsal κ :=
  if (r.line? e).isSome then
    { r with script := r.script.modify e.call.run.job.id (·.drop 1) }
  else r

/-- The first waiting call with a standing answer, and that answer. -/
def nextAnswer? (r : Rehearsal κ) : Option (Errand κ × CallResult) :=
  match r.world.crew with
  | .simulated _ => none
  | .scripted _ => r.world.errands.findSome? fun e => (r.standing? e).map (e, ·)

/-- Answer a waiting call. -/
def answer (w : World κ) (e : Errand κ) (result : CallResult) : World κ :=
  { w with errands := w.errands.filter (·.number ≠ e.number) }.returned e result

variable [Quantity κ]

/-- Give standing answers as long as calls wait for one, at most `fuel` of them. -/
def answerWithin : Nat → Rehearsal κ → Rehearsal κ
  | 0, r => r
  | fuel + 1, r =>
    match r.nextAnswer? with
    | none => r
    | some (e, result) =>
      let r := r.strike e
      answerWithin fuel
        { r with
          world := (answer r.world e result).settle
          answersLeft := r.answersLeft - 1 }

/-- Let everything happen that is due, and give the standing answers. -/
def play (r : Rehearsal κ) : Rehearsal κ :=
  let r := { r with world := r.world.settle }
  answerWithin r.answersLeft r

/-- Send a request and let everything happen that follows; the reply is none when it is still to
come. -/
def ask (r : Rehearsal κ) (command : Command κ) : Option Reply × Rehearsal κ :=
  let (ticket, world) := r.world.offer command
  let (reply, world) := world.settle.collect ticket
  (reply, { r with world }.play)

/-- Ask for a shutdown. -/
def shutDown (r : Rehearsal κ) : Rehearsal κ :=
  { r with world := { r.world with shutdownAsked := true } }.play

/-- Send several requests before the loop looks at the first.  An entry that is none asks for a
shutdown; that is granted at once. -/
def askAll (r : Rehearsal κ) (commands : List (Option (Command κ))) :
    List (Option Reply) × Rehearsal κ :=
  let (world, tickets) := commands.foldl
    (fun (w, tickets) command =>
      match command with
      | none => ({ w with shutdownAsked := true }, tickets ++ [none])
      | some command =>
        let (ticket, w) := w.offer command
        (w, tickets ++ [some ticket]))
    (r.world, [])
  let (world, replies) := tickets.foldl
    (fun (w, replies) ticket =>
      match ticket with
      | none => (w, replies ++ [some (.ok ())])
      | some ticket =>
        let (reply, w) := World.collect w ticket
        (w, replies ++ [reply]))
    (world.settle, [])
  (replies, { r with world }.play)

/-- Answer a call by hand; says whether it was still waiting. -/
def finish (r : Rehearsal κ) (number : Nat) (result : CallResult) : Bool × Rehearsal κ :=
  match r.world.errands.find? (·.number == number) with
  | none => (false, r.play)
  | some e => (true, { r with world := answer r.world e result }.play)

/-- Let time pass from timer to timer up to `target`, at most `fuel` of them.  When calls are issued
on the way, the standing answers are given at that instant. -/
def passWithin : Nat → Nat → Rehearsal κ → Rehearsal κ
  | 0, _, r => r
  | fuel + 1, target, r =>
    match r.world.nextDue? with
    | none => r
    | some t =>
      if t ≤ target then
        let world := r.world.arrive t
        let issued := r.world.callCount < world.callCount
        let r := { r with world }
        passWithin fuel target (if issued then r.play else r)
      else r

/-- Let time pass. -/
def pass (r : Rehearsal κ) (millis : Nat) : Rehearsal κ :=
  let target := r.world.millis + millis
  let r := passWithin millis target r
  { r with world := { r.world with millis := target } }.play

/-- Move the clock of the scheduler, if it is moved by hand. -/
def moveClock (r : Rehearsal κ) (millis : Nat) : Rehearsal κ :=
  { r with world := { r.world with manualClock := r.world.manualClock.map (· + millis) } }.play

/-- Let the owner go. -/
def disown (r : Rehearsal κ) : Rehearsal κ :=
  { r with world := { r.world with owned := false } }.play

/-- Set up a sender that keeps an executor alive. -/
def keepAlive (r : Rehearsal κ) (executor : String) (period : Duration) : Rehearsal κ :=
  { r with world := r.world.keepAlive executor period }.play

/-- Cancel the sender set up last for an executor; says whether there was one. -/
def endKeepalive (r : Rehearsal κ) (executor : String) : Bool × Rehearsal κ :=
  let keepalives := r.world.keepalives.map fun k =>
    if k.latest && k.executor == executor then { k with cancelled := true } else k
  (r.world.keepalives.any (·.executor == executor),
    { r with world := { r.world with keepalives } }.play)

/-- The calls cancelled and not shown before: those that still wait and those that returned by
themselves. -/
def showCancelled (r : Rehearsal κ) : List Nat × Rehearsal κ :=
  let w := r.world
  let waiting :=
    match w.crew with
    | .simulated _ => []
    | .scripted _ => (w.errands.filter fun e => w.isCancelled e && !e.shown).map (·.number)
  let errands := w.errands.map fun e => { e with shown := e.shown || w.isCancelled e }
  (lineUp (· ≤ ·) (waiting ++ w.withdrawn),
    { r with world := { w with errands, withdrawn := [] } })

/-- The situations reported and the calls issued since the last look, in order. -/
def takeLogs (r : Rehearsal κ) : List (Incident κ) × List (Nat × Call κ) × Rehearsal κ :=
  (r.world.incidents.reverse, r.world.callLog.reverse,
    { r with world := { r.world with incidents := [], callLog := [] } })

end Rehearsal

end Dispatch
