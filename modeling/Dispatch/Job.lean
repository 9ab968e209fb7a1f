import Dispatch.Quantity
import Dispatch.Time

/-! # Jobs, executors and runs

A `Job` is a unit of work with a cost, an `Executor` offers capacity, and a `Run` is what binds
one to the other.  A run is pending, then starting, then running, then stopping, and then pending
again or gone.  Each of these moves is one operation on runs here; what they mean for the other
tables is said where they are used.
-/

namespace Dispatch

/-- A unit of work. -/
structure Job (κ : Type) where
  id : String
  name : String := id
  /-- How long the job runs once it is running; zero means until it is stopped. -/
  duration : Duration := 0
  /-- What the job takes of the capacity of its executor. -/
  cost : κ
  /-- Counts the changes of the definition. -/
  revision : UInt64 := 0

/-- A place where jobs run. -/
structure Executor (κ : Type) where
  id : String
  name : String := id
  capacity : κ
  /-- Whether no more jobs may be placed here. -/
  paused : Bool := false
  /-- When the executor last reported. -/
  keptAliveAt : Option Instant := none
  /-- Settings of the executor; jobs do not survive a change. -/
  settingsHash : UInt64 := 0
  /-- Counts the changes of capacity and settings. -/
  revision : UInt64 := 0

namespace Executor

variable {κ : Type}

/-- Whether the last report lies inside the window; without a window every executor is alive. -/
def isAlive (e : Executor κ) (now : Instant) (window : Option Duration) : Bool :=
  match window with
  | none => true
  | some w =>
    match e.keptAliveAt with
    | some last => now.since last < w
    | none => false

end Executor

/-- What a run is doing. -/
inductive RunState
  | pending
  | starting
  | running
  | stopping
deriving DecidableEq, Repr

/-- The state in one word. -/
def RunState.name : RunState → String
  | .pending => "pending"
  | .starting => "starting"
  | .running => "running"
  | .stopping => "stopping"

/-- The binding of a job to an executor. -/
structure Run (κ : Type) where
  /-- The job as it was when the run was placed. -/
  job : Job κ
  executor : Option String := none
  /-- Revision of the executor when the run was placed there. -/
  executorRevision : Option UInt64 := none
  startedAt : Option Instant := none
  /-- When the job was confirmed to run. -/
  ranAt : Option Instant := none
  stoppedAt : Option Instant := none
  stopping : Bool := false
  /-- Whether the job is to be forgotten once it is stopped. -/
  removing : Bool := false
  /-- Place in the order of addition. -/
  ordinal : Nat
  /-- Counts starts, stops and moves, so that a late outcome can be told from a current one. -/
  attempt : Nat := 0

namespace Run

variable {κ : Type}

/-- On no executor, and not on the way off one. -/
def isPending (r : Run κ) : Bool := r.executor.isNone && !r.stopping

/-- Started and not confirmed to run. -/
def isStarting (r : Run κ) : Bool := r.startedAt.isSome && r.ranAt.isNone

/-- Confirmed to run. -/
def isRunning (r : Run κ) : Bool := r.ranAt.isSome

/-- On an executor, or on the way off it. -/
def isBoundTo (r : Run κ) (executor : String) : Bool := r.executor == some executor

/-- What the run is doing. -/
def state (r : Run κ) : RunState :=
  if r.stopping then .stopping
  else if r.ranAt.isSome then .running
  else if r.startedAt.isSome then .starting
  else .pending

/-- Place the run on an executor and start the job as it is defined now. -/
def start (r : Run κ) (job : Job κ) (e : Executor κ) (now : Instant) : Run κ :=
  { r with
    job := job
    stoppedAt := none
    removing := false
    startedAt := some now
    ranAt := none
    executor := some e.id
    executorRevision := some e.revision
    attempt := r.attempt + 1 }

/-- The job is confirmed to run. -/
def confirm (r : Run κ) (now : Instant) : Run κ := { r with ranAt := some now }

/-- Take the run off its executor without a stop. -/
def release (r : Run κ) (now : Instant) : Run κ :=
  { r with
    executor := none
    executorRevision := none
    startedAt := none
    ranAt := none
    stoppedAt := some now }

/-- Begin to stop the run; it stays on its executor until the stop is over. -/
def stop (r : Run κ) (remove : Bool) (now : Instant) : Run κ :=
  { r with
    stopping := true
    removing := remove
    stoppedAt := some now
    ranAt := none
    startedAt := none
    executorRevision := none
    attempt := r.attempt + 1 }

/-- The stop is over: the run is pending, with the job as it is defined now. -/
def settle (r : Run κ) (job : Job κ) : Run κ :=
  { r with job := job, executor := none, stopping := false }

/-- Bind a pending run to the executor that turned out to host its job. -/
def bind (r : Run κ) (executor : String) (revision : UInt64) : Run κ :=
  { r with executor := some executor, executorRevision := some revision, stoppedAt := none }

/-- Count a bound run as running from now on. -/
def adopt (r : Run κ) (now : Instant) : Run κ :=
  { r with startedAt := some now, ranAt := some now, attempt := r.attempt + 1 }

end Run

end Dispatch
