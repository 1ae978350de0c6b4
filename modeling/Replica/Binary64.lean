/-!
# Binary floating-point numbers of 64 bits

A `Binary64` is the bit pattern of such a number. A finite one is a sign and `m * 2^q` for a natural
number `m` below `2^53` (`significand`, `exponent`), and all arithmetic here is done on these exact
values and rounded once at the end, to the nearest representable number and to the even one of two
equally near (`ofRatio?`).
-/

namespace Replica

/-- A number in the 64-bit binary format: one bit of sign, eleven of exponent, 52 of fraction. -/
structure Binary64 where
  /-- The bit pattern. -/
  bits : UInt64
  deriving DecidableEq

namespace Binary64

instance : Inhabited Binary64 := ⟨⟨0⟩⟩

/-- The number without its sign, as the natural number of its lower 63 bits. -/
def magnitude (x : Binary64) : Nat := x.bits.toNat % Nat.pow 2 63

/-- Whether the sign bit is set. -/
def isNegative (x : Binary64) : Bool := Nat.pow 2 63 ≤ x.bits.toNat

/-- Whether the number is zero, of either sign. -/
def isZero (x : Binary64) : Bool := x.magnitude == 0

/-- The natural number `m` of the value `m * 2^q`. -/
def significand (x : Binary64) : Nat :=
  let fraction := x.magnitude % Nat.pow 2 52
  if x.magnitude / Nat.pow 2 52 = 0 then fraction else fraction + Nat.pow 2 52

/-- The exponent `q` of the value `m * 2^q`. -/
def exponent (x : Binary64) : Int :=
  let field : Nat := x.magnitude / Nat.pow 2 52
  if field = 0 then -1074 else (field : Int) - 1075

/-- The absolute value as a quotient of two natural numbers. -/
def ratio (x : Binary64) : Nat × Nat :=
  (x.significand * Nat.pow 2 x.exponent.toNat, Nat.pow 2 (-x.exponent).toNat)

/-- The pattern with the given sign and magnitude. -/
def ofMagnitude (negative : Bool) (magnitude : Nat) : Binary64 :=
  ⟨UInt64.ofNat (if negative then magnitude + Nat.pow 2 63 else magnitude)⟩

/-- The number of the opposite sign. -/
def neg (x : Binary64) : Binary64 := ofMagnitude (!x.isNegative) x.magnitude

/-- The natural number nearest to `num / den`, and the even one of two equally near. -/
def roundQuotient (num den : Nat) : Nat :=
  let floor := num / den
  let twiceRest := 2 * (num % den)
  if twiceRest < den then floor
  else if twiceRest > den then floor + 1
  else if floor % 2 = 0 then floor else floor + 1

/-- The number nearest to `num / den`, and the even one of two equally near; nothing if it lies
beyond the finite numbers. -/
def ofRatio? (num den : Nat) : Option Binary64 :=
  if num = 0 ∨ den = 0 then some (ofMagnitude false 0)
  else
    let estimate : Int := (Nat.log2 num : Int) - (Nat.log2 den : Int)
    -- `2^e ≤ num / den < 2^(e + 1)`, where the estimate is `e` or `e + 1`.
    let reaches := den * Nat.pow 2 estimate.toNat ≤ num * Nat.pow 2 (-estimate).toNat
    let e := if reaches then estimate else estimate - 1
    let q := max (e - 52) (-1074)
    let m := roundQuotient (num * Nat.pow 2 (-q).toNat) (den * Nat.pow 2 q.toNat)
    let magnitude :=
      if m < Nat.pow 2 52 then m else (q + 1075).toNat * Nat.pow 2 52 + (m - Nat.pow 2 52)
    if magnitude < 2047 * Nat.pow 2 52 then some (ofMagnitude false magnitude) else none

/-- The number nearest to a natural number. -/
def ofNat? (n : Nat) : Option Binary64 := ofRatio? n 1

/-- The rounded product of two numbers that are not negative. -/
def mul? (x y : Binary64) : Option Binary64 :=
  ofRatio? (x.ratio.1 * y.ratio.1) (x.ratio.2 * y.ratio.2)

/-- The rounded quotient of two numbers that are not negative, the second not zero. -/
def div? (x y : Binary64) : Option Binary64 :=
  ofRatio? (x.ratio.1 * y.ratio.2) (x.ratio.2 * y.ratio.1)

/-- The order of values puts the two zeros in one place: they are the same number. -/
def same (x y : Binary64) : Bool := x == y || (x.isZero && y.isZero)

end Binary64

end Replica
