import Dispatch.Error
import Dispatch.Quantity
import Dispatch.Time

/-! # Settings

`Config` holds the settings of a scheduler.  `Config.validate` says which settings are refused,
`Config.aliveWindow` how long an executor counts as alive after it was last heard of.
-/

namespace Dispatch

/-- Settings of placement, load balancing and calls. -/
structure Config (κ : Type) where
  /-- How often executors are expected to report; zero turns the liveness check off. -/
  aliveDuration : Duration := 0
  /-- Most runs of one executor that are started and not yet running. -/
  simultaneousStarts : Nat := 1
  /-- Least time between two starts on one executor, when more than one may be starting. -/
  startGap : Duration := 0
  /-- Difference in cost that is worth moving a running job; zero turns balancing off. -/
  balanceAt : κ
  /-- How long a job may outlive its duration, or stay on a paused executor. -/
  slack : Duration := 0
  /-- How long a start or stop call may take; none means for ever. -/
  callTimeout : Option Duration := none
  /-- Most runs that are started at once; zero means any number. -/
  maxJobs : Nat := 0
  /-- Whether a successful start call confirms that the job runs. -/
  runningOnStart : Bool := false
  /-- How many requests may wait in line. -/
  queueCapacity : Nat := 256

namespace Config

variable {κ : Type}

/-- The window after the last report in which an executor counts as alive: 140 hundredths of the
alive duration, or the longest duration when that many do not fit.  None when liveness is not
checked. -/
def aliveWindow (c : Config κ) : Option Duration :=
  if c.aliveDuration = 0 then none
  else if 140 * c.aliveDuration ≤ Duration.longest then some (140 * c.aliveDuration / 100)
  else some Duration.longest

/-- Whether as many runs are started as may be. -/
def capReached (c : Config κ) (started : Nat) : Bool := 0 < c.maxJobs && c.maxJobs ≤ started

variable [Quantity κ]

instance : Inhabited (Config κ) := ⟨{ balanceAt := 0 }⟩

/-- The first setting that makes no sense, if there is one. -/
def validate (c : Config κ) : Reply :=
  if c.simultaneousStarts = 0 then
    .error (.invalidConfig "simultaneous_starts must be at least 1")
  else if !Quantity.isValid c.balanceAt then
    .error (.invalidConfig
      ("load_balance_if_cost_difference must be a non-negative number, got " ++
        Quantity.text c.balanceAt))
  else if c.queueCapacity = 0 then
    .error (.invalidConfig "command_channel_capacity must be at least 1")
  else .ok ()

end Config

end Dispatch
