import Replica.Duration

/-!
# Waiting between attempts

The waits between the attempts at one transaction grow by a factor up to a bound. The waits between
the attempts at an initial sync grow by a fixed step.
-/

namespace Replica

/-- How often something is attempted, and how long to wait in between. -/
structure Backoff where
  /-- The number of attempts, the first one included. -/
  maxAttempts : Nat
  /-- The wait before the second attempt. -/
  initial : Duration := Duration.ofMillis 10
  /-- The longest wait. -/
  longest : Duration := Duration.ofMillis 1000
  /-- The factor from one wait to the next. -/
  multiplier : Float := 2.0
  /-- Whether a random part of up to a quarter is added. -/
  jitter : Bool := true

namespace Backoff

/-- The given number of attempts, and one at least. -/
def ofAttempts (attempts : Nat) : Backoff := { maxAttempts := max attempts 1 }

/-- A single attempt. -/
def single : Backoff :=
  { maxAttempts := 1, initial := 0, longest := 0, multiplier := 1.0, jitter := false }

/-- Multiplies `result` by `base` to the `exponent`, squaring the base from bit to bit. -/
def powLoop : (fuel exponent : Nat) → (base result : Float) → Float
  | 0, _, _, result => result
  | fuel + 1, exponent, base, result =>
    let result := if exponent % 2 = 1 then result * base else result
    if exponent / 2 = 0 then result else powLoop fuel (exponent / 2) (base * base) result

/-- A power with an exponent of 32 bits. -/
def power (base : Float) (exponent : Int) : Float :=
  let p := powLoop 32 exponent.natAbs base 1.0
  if exponent < 0 then 1.0 / p else p

/-- The wait before an attempt, counted from zero: the first one never waits. The exponent of the
factor is a signed number of 32 bits. `fraction`, from zero up to one, is the random part of the
quarter that jitter adds. -/
def delay (b : Backoff) (attempt : Nat) (fraction : Float) : Duration :=
  if attempt = 0 then 0
  else
    let exponent := Int.bmod (attempt - 1 : Nat) (Nat.pow 2 32)
    let grown := b.initial.seconds * power b.multiplier exponent
    let bound := b.longest.seconds
    let wait := if grown < bound then grown else bound
    Duration.ofSeconds (if b.jitter then wait + wait * 0.25 * fraction else wait)

end Backoff

/-- The wait before an attempt, counted from one, that grows by `step` from attempt to attempt; the
first one never waits. -/
def linearDelay (step : Duration) (attempt : Nat) : Duration :=
  if attempt ≤ 1 then 0 else step * attempt

end Replica
