import Dispatch.Error
import Dispatch.Job
import Dispatch.Table

/-! # The registry

The registry holds the jobs, their runs and the executors.  Every job has one run, added and
removed together with it; runs are listed in the order in which their jobs were added.  An
operation either is refused, and then there is no new registry, or succeeds.
-/

namespace Dispatch

/-- The tables of a scheduler. -/
structure Registry (κ : Type) where
  jobs : Table (Job κ) := ∅
  runs : Table (Run κ) := ∅
  /-- In the order of addition. -/
  executors : List (Executor κ) := []
  /-- The ordinal of the next run. -/
  nextOrdinal : Nat := 0

namespace Registry

variable {κ : Type}

instance : EmptyCollection (Registry κ) := ⟨⟨∅, ∅, [], 0⟩⟩

instance : Inhabited (Registry κ) := ⟨∅⟩

/-- The executor of an id. -/
def executor? (r : Registry κ) (id : String) : Option (Executor κ) :=
  r.executors.find? (·.id == id)

/-- All runs, in the order in which their jobs were added. -/
def allRuns (r : Registry κ) : List (Run κ) := r.runs.values

/-- The runs on an executor, or on the way off it. -/
def runsOn (r : Registry κ) (executor : String) : List (Run κ) :=
  r.allRuns.filter (·.isBoundTo executor)

/-- The runs that take capacity of an executor: started on it and not being stopped. -/
def carriedBy (r : Registry κ) (executor : String) : List (Run κ) :=
  r.allRuns.filter fun run => !run.stopping && run.isBoundTo executor && run.startedAt.isSome

/-- The number of runs that count against the job cap. -/
def startedCount (r : Registry κ) : Nat := r.allRuns.countP (·.startedAt.isSome)

/-- Change the run of a job. -/
def modifyRun (r : Registry κ) (id : String) (f : Run κ → Run κ) : Registry κ :=
  { r with runs := r.runs.modify id f }

/-- Forget a job and its run. -/
def removeRun (r : Registry κ) (id : String) : Registry κ :=
  { r with jobs := r.jobs.erase id, runs := r.runs.erase id }

/-- Change the executor of an id. -/
def modifyExecutor (r : Registry κ) (id : String) (f : Executor κ → Executor κ) : Registry κ :=
  { r with executors := r.executors.map fun e => if e.id = id then f e else e }

/-- Forget an executor; runs on it stay as they are. -/
def removeExecutor (r : Registry κ) (id : String) : Except SchedulerError (Registry κ) :=
  match r.executor? id with
  | none => .error (.executorNotFound id)
  | some _ => .ok { r with executors := r.executors.filter fun e => e.id ≠ id }

/-- Note that an executor has reported. -/
def keepAlive (r : Registry κ) (id : String) (now : Instant) :
    Except SchedulerError (Registry κ) :=
  match r.executor? id with
  | none => .error (.executorNotFound id)
  | some _ => .ok (r.modifyExecutor id fun e => { e with keptAliveAt := some now })

variable [Quantity κ]

/-- Refuse a job whose cost is no number or negative. -/
def checkCost (job : Job κ) : Reply :=
  if Quantity.isValid job.cost then .ok ()
  else .error (.invalidJob
    ("cost of " ++ job.id ++ " must be a non-negative number, got " ++ Quantity.text job.cost))

/-- Refuse an executor whose capacity is no number or negative. -/
def checkCapacity (e : Executor κ) : Reply :=
  if Quantity.isValid e.capacity then .ok ()
  else .error (.invalidExecutor
    ("capacity of " ++ e.id ++ " must be a non-negative number, got " ++ Quantity.text e.capacity))

/-- Add a job with a pending run. -/
def addJob (r : Registry κ) (job : Job κ) : Except SchedulerError (Registry κ) :=
  match checkCost job with
  | .error e => .error e
  | .ok () =>
    if r.jobs.contains job.id then .error (.jobExists job.id)
    else .ok
      { r with
        jobs := r.jobs.addNew job.id job
        runs := r.runs.addNew job.id { job := job, ordinal := r.nextOrdinal }
        nextOrdinal := r.nextOrdinal + 1 }

/-- Replace the definition of a job and count the change.  A pending run takes the new definition
at once, any other run keeps the one it was placed with. -/
def changeJob (r : Registry κ) (job : Job κ) : Except SchedulerError (Registry κ) :=
  match checkCost job with
  | .error e => .error e
  | .ok () =>
    match r.jobs.get? job.id with
    | none => .error (.jobNotFound job.id)
    | some old =>
      let job := { job with revision := old.revision + 1 }
      .ok
        { r with
          jobs := r.jobs.modify job.id fun _ => job
          runs := r.runs.modify job.id fun run =>
            if run.isPending then { run with job := job } else run }

/-- Add an executor; unless told otherwise it has just reported. -/
def addExecutor (r : Registry κ) (e : Executor κ) (now : Instant) :
    Except SchedulerError (Registry κ) :=
  match checkCapacity e with
  | .error err => .error err
  | .ok () =>
    match r.executor? e.id with
    | some _ => .error (.executorExists e.id)
    | none =>
      let e := { e with keptAliveAt := e.keptAliveAt.or (some now) }
      .ok { r with executors := r.executors ++ [e] }

/-- Whether a new definition of an executor differs from the old one in capacity or settings. -/
def revises (old new : Executor κ) : Bool :=
  old.capacity != new.capacity || old.settingsHash != new.settingsHash

/-- The executor under its new definition.  Its revision counts changes of capacity or settings,
and the time of its last report stays unless a new one is given. -/
def redefine (old new : Executor κ) : Executor κ :=
  { old with
    name := new.name
    paused := new.paused
    capacity := new.capacity
    settingsHash := new.settingsHash
    keptAliveAt := new.keptAliveAt.or old.keptAliveAt
    revision := if revises old new then old.revision + 1 else old.revision }

/-- Replace the definition of an executor; says whether that counts as a change. -/
def changeExecutor (r : Registry κ) (e : Executor κ) :
    Except SchedulerError (Registry κ × Bool) :=
  match checkCapacity e with
  | .error err => .error err
  | .ok () =>
    match r.executor? e.id with
    | none => .error (.executorNotFound e.id)
    | some old => .ok (r.modifyExecutor e.id (redefine · e), revises old e)

end Registry

end Dispatch
