import Dispatch.Registry.Basic

/-! # Room on executors

A `Capacity` is what a usable executor (alive and not paused) offers at one instant and what is
taken of it.  The snapshot lists the usable executors in the order in which they were added, and
counts each run at the first entry of its executor.
-/

namespace Dispatch

/-- The load of one usable executor. -/
structure Capacity (κ : Type) where
  executor : String
  capacity : κ
  /-- The cost of the started runs on the executor. -/
  load : κ
  /-- How many of them are not yet confirmed to run. -/
  startingCount : Nat := 0
  /-- When the last of those was started. -/
  lastStart : Option Instant := none

variable {κ : Type} [Quantity κ]

namespace Capacity

/-- What is left. -/
def spare (c : Capacity κ) : κ := c.capacity - c.load

/-- The part in use; an executor without capacity counts as full. -/
def usedRatio (c : Capacity κ) : κ := if c.capacity ≤ 0 then 1 else c.load / c.capacity

/-- The part left. -/
def spareRatio (c : Capacity κ) : κ := 1 - c.usedRatio

/-- Whether a job of this cost exceeds what is left. -/
def exceededBy (c : Capacity κ) (cost : κ) : Bool := c.spare + Quantity.tolerance < cost

/-- An executor of which nothing is taken. -/
def unused (e : Executor κ) : Capacity κ :=
  { executor := e.id, capacity := e.capacity, load := 0 }

/-- Count one more run, which was started at the given instant. -/
def count (c : Capacity κ) (run : Run κ) (started : Instant) : Capacity κ :=
  let c := { c with load := c.load + run.job.cost }
  if run.isRunning then c
  else
    { c with
      startingCount := c.startingCount + 1
      lastStart := if c.lastStart.all (· < started) then some started else c.lastStart }

end Capacity

/-- The usable executors at one instant, in the order of addition. -/
abbrev Snapshot (κ : Type) := List (Capacity κ)

namespace Snapshot

omit [Quantity κ] in
/-- Change the first entry of an executor. -/
def changeFirst (f : Capacity κ → Capacity κ) (executor : String) : Snapshot κ → Snapshot κ
  | [] => []
  | c :: s => if c.executor == executor then f c :: s else c :: changeFirst f executor s

/-- Count a run at the first entry of its executor, if it is started and not being stopped. -/
def count (s : Snapshot κ) (run : Run κ) : Snapshot κ :=
  if run.stopping then s
  else
    match run.executor, run.startedAt with
    | some executor, some started => s.changeFirst (·.count run started) executor
    | _, _ => s

/-- What the executors offer at an instant, after one pass over all runs in the order of
addition. -/
def ofRegistry (r : Registry κ) (now : Instant) (window : Option Duration) : Snapshot κ :=
  r.allRuns.foldl count
    ((r.executors.filter fun e => !e.paused && e.isAlive now window).map Capacity.unused)

omit [Quantity κ] in
/-- The entry of an executor. -/
def find (s : Snapshot κ) (executor : String) : Option (Capacity κ) :=
  s.find? (·.executor == executor)

/-- What is left on all executors but one; overloaded executors count as full. -/
def spareExcluding (s : Snapshot κ) (executor : String) : κ :=
  Quantity.sum ((s.filter (·.executor != executor)).map fun c => Quantity.positivePart c.spare)

end Snapshot

end Dispatch
