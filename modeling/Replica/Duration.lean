import Replica.Binary64

/-!
# Spans of time

A span of time is a number of nanoseconds. Where one is scaled it is first turned into seconds as a
floating-point number, and the result is rounded to nanoseconds, a half to the even neighbour.
-/

namespace Replica

/-- A span of time in nanoseconds. -/
abbrev Duration := Nat

namespace Duration

/-- The given number of microseconds. -/
def ofMicros (n : Nat) : Duration := n * 1000

/-- The given number of milliseconds. -/
def ofMillis (n : Nat) : Duration := n * 1000000

/-- The whole microseconds of a span. -/
def micros (d : Duration) : Nat := d / 1000

/-- A natural number below `2^64` as a floating-point number. -/
def floatOf (n : Nat) : Float := (UInt64.ofNat n).toFloat

/-- The seconds of a span. -/
def seconds (d : Duration) : Float := floatOf (d / 1000000000) + floatOf (d % 1000000000) / 1e9

/-- The span of a number of seconds that is not negative. -/
def ofSeconds (s : Float) : Duration :=
  let (num, den) := (Binary64.mk s.toBits).ratio
  Binary64.roundQuotient (num * 1000000000) den

end Duration

end Replica
