import TorrentCore.Decimal.Dyadic

/-!
# Durations in nanoseconds

Durations are natural numbers of nanoseconds. A double counts seconds; turning one into a duration
rounds its exact value to the nearest nanosecond, ties to even.
-/

namespace TorrentCore

/-- A length of time, or a time since the clock was started, in nanoseconds. -/
abbrev Nanoseconds := Nat

namespace Nanoseconds

def ofMilliseconds (ms : Nat) : Nanoseconds := ms * 1000000

def ofSeconds (s : Nat) : Nanoseconds := s * 1000000000

/-- Whole milliseconds, the rest dropped. -/
def toMilliseconds (t : Nanoseconds) : Nat := t / 1000000

/-- The first whole millisecond that is not before `t`. Timers go off at whole milliseconds. -/
def ceilMilliseconds (t : Nanoseconds) : Nanoseconds := (t + 999999) / 1000000 * 1000000

/-- The nearest double to a duration: whole seconds and the rest are converted on their own. -/
def toSeconds (t : Nanoseconds) : Float :=
  (t / 1000000000).toFloat + (t % 1000000000).toFloat / 1000000000.0

/-- The duration a double counts in seconds. Negative and infinite doubles count nothing. -/
def ofFloatSeconds (x : Float) : Nanoseconds :=
  match Dyadic.ofFloat? x with
  | some d => if d.negative then 0 else roundHalfEven (d.numerator * 1000000000) d.denominator
  | none => 0

end Nanoseconds

end TorrentCore
