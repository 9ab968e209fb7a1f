import Dispatch.Table
import Dispatch.Time

/-! # Time accounts of jobs

`Timings` adds up how long a job has spent in each phase since it became known.  A phase is counted
when it ends; `Timings.settled` is a copy that counts the phase still open as well.  The time a job
was gone is what is left of the time it has been known.
-/

namespace Dispatch

/-- What a job is doing, as far as time is concerned. -/
inductive Phase
  /-- Known and on no executor. -/
  | existing
  | starting
  | running
  | ending
  /-- Removed. -/
  | gone
deriving DecidableEq, Repr

/-- Time spent in each phase. -/
structure Timings where
  /-- The phase that is open and when it was entered. -/
  current : Option (Phase × Instant) := none
  /-- When the job was first added. -/
  knownSince : Option Instant := none
  /-- Time since the job was first added; only settled copies have it. -/
  known : Duration := 0
  /-- The part of it in which the job was gone; only settled copies have it. -/
  gone : Duration := 0
  existed : Duration := 0
  started : Duration := 0
  ended : Duration := 0
  ran : Duration := 0
  /-- How often the job was started. -/
  startCount : Nat := 0
  jobName : String := ""
  executorName : String := ""
deriving DecidableEq, Repr

namespace Timings

/-- The phase that is open. -/
def phase? (t : Timings) : Option Phase := t.current.map Prod.fst

/-- Add time to the account of a phase. -/
def credit (t : Timings) (phase : Phase) (d : Duration) : Timings :=
  match phase with
  | .existing => { t with existed := t.existed + d }
  | .starting => { t with started := t.started + d }
  | .running => { t with ran := t.ran + d }
  | .ending => { t with ended := t.ended + d }
  | .gone => t

/-- Count the open phase up to now and close it. -/
def close (t : Timings) (now : Instant) : Timings :=
  match t.current with
  | none => t
  | some (phase, since) => { t.credit phase (now.since since) with current := none }

/-- Close the open phase and enter the next one.  A job that is gone has no open phase, and a job
on no executor has no executor name. -/
def enter (t : Timings) (phase : Phase) (now : Instant) : Timings :=
  let t := { t with knownSince := t.knownSince.or (some now) }.close now
  match phase with
  | .existing => { t with executorName := "", current := some (.existing, now) }
  | .starting => { t with startCount := t.startCount + 1, current := some (.starting, now) }
  | .running => { t with current := some (.running, now) }
  | .ending => { t with current := some (.ending, now) }
  | .gone => { t with executorName := "", current := none }

/-- A copy that counts the open phase up to now, and leaves it open. -/
def settled (t : Timings) (now : Instant) : Timings :=
  let s := { t.close now with current := t.current }
  let known := (t.knownSince.map now.since).getD 0
  { s with known, gone := known - (s.existed + s.started + s.ran + s.ended) }

end Timings

end Dispatch
