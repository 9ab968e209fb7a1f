/-! # Instants and durations

Time is counted in nanoseconds.  An `Instant` is a signed distance from the epoch of the clock in
use, a `Duration` an unsigned length.  Elapsed time never goes below zero (`Instant.since`), sums
of durations stop at the longest one (`Duration.saturatingAdd`), and an instant past the end of
the calendar does not exist (`Instant.after?`).
-/

namespace Dispatch

/-- A length of time, in nanoseconds. -/
abbrev Duration := Nat

/-- A point in time, in nanoseconds after the epoch of the clock. -/
abbrev Instant := Int

namespace Duration

/-- The longest duration: 2⁶⁴ − 1 seconds and 999 999 999 nanoseconds. -/
def longest : Duration := 18446744073709551615999999999

/-- The sum, or the longest duration when the sum is longer than that. -/
def saturatingAdd (a b : Duration) : Duration := min (a + b) longest

/-- A whole number of milliseconds. -/
def ofMillis (ms : Nat) : Duration := ms * 1000000

/-- A whole number of seconds. -/
def ofSeconds (s : Nat) : Duration := s * 1000000000

/-- The least whole number of milliseconds that covers `d`. -/
def ceilMillis (d : Duration) : Nat := (d + 999999) / 1000000

/-- The duration in seconds: whole seconds and the fraction are rounded one after the other. -/
def toSeconds (d : Duration) : Float :=
  (d / 1000000000).toUInt64.toFloat + (d % 1000000000).toUInt64.toFloat / 1e9

end Duration

namespace Instant

/-- The first instant that no clock can show: 2⁶³ seconds after the epoch. -/
def horizon : Instant := 9223372036854775808000000000

/-- Time elapsed from `earlier` to `t`, zero when `earlier` is the later one. -/
def since (t earlier : Instant) : Duration := (t - earlier).toNat

/-- The instant `d` after `t`, if it lies before the horizon. -/
def after? (t : Instant) (d : Duration) : Option Instant :=
  if t + d < horizon then some (t + d) else none

/-- The number of whole milliseconds since the epoch. -/
def toMillis (t : Instant) : Nat := t.toNat / 1000000

end Instant

end Dispatch
