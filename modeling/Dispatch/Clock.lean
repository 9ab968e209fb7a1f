import Dispatch.Time

/-! # A clock moved by hand

The clock shows its base instant plus all the time it was advanced by.  It only moves when told
to, and the time it was advanced by never exceeds the longest duration.
-/

namespace Dispatch

/-- A clock that only moves when told to. -/
structure ManualClock where
  /-- What the clock showed at first. -/
  base : Instant := 0
  /-- How far it was moved since. -/
  elapsed : Duration := 0

namespace ManualClock

/-- Move the clock forward. -/
def advance (c : ManualClock) (d : Duration) : ManualClock :=
  { c with elapsed := c.elapsed.saturatingAdd d }

/-- What the clock shows, if there is such an instant. -/
def now? (c : ManualClock) : Option Instant := c.base.after? c.elapsed

/-- What is said when the clock was moved past the horizon. -/
def outOfRange : String := "overflow when adding duration to instant"

end ManualClock

end Dispatch
