import Replica.Binary64

/-!
# The shortest decimal of a binary number

`Decimal.ofBinary64` gives the fewest decimal digits that read back as a positive finite number, and
of these the nearest to it. A grid of `n` digits has two points next to the value; the first grid,
from one digit upwards, on which a neighbour reads back has the fewest digits.
-/

namespace Replica

/-- The decimal number `0.d₁d₂… * 10^point`. -/
structure Decimal where
  /-- The digits as a natural number, without zeros at its end. -/
  digits : Nat
  /-- The place of the decimal point, counted from before the first digit. -/
  point : Int
  deriving DecidableEq

namespace Decimal

/-- The number of decimal digits of a natural number; one for zero. -/
def digitCount (n : Nat) : Nat := (Nat.toDigits 10 n).length

/-- The least `k` with `num / den < 10^k`, for positive arguments. -/
def scale (num den : Nat) : Int :=
  if den ≤ num then digitCount (num / den) else 1 - (digitCount ((den - 1) / num) : Int)

/-- The quotient `num / den` in units of `10^unit`, as a quotient of natural numbers. -/
def inUnits (num den : Nat) (unit : Int) : Nat × Nat :=
  (num * Nat.pow 10 (-unit).toNat, den * Nat.pow 10 unit.toNat)

/-- Whether `digits * 10^unit` is read as the number `x`. -/
def readsBack (x : Binary64) (digits : Nat) (unit : Int) : Bool :=
  Binary64.ofRatio? (digits * Nat.pow 10 unit.toNat) (Nat.pow 10 (-unit).toNat) ==
    some (Binary64.ofMagnitude false x.magnitude)

/-- The point of the grid `10^unit` that reads back as `x`: of two such neighbours the nearer one,
and the even one of two equally near. -/
def neighbour? (x : Binary64) (unit : Int) : Option Nat :=
  let (num, den) := inUnits x.ratio.1 x.ratio.2 unit
  let low := num / den
  let twiceRest := 2 * (num % den)
  let preferLow := twiceRest < den || (twiceRest == den && low % 2 == 0)
  match readsBack x low unit, readsBack x (low + 1) unit with
  | true, true => some (if preferLow then low else low + 1)
  | true, false => some low
  | false, true => some (low + 1)
  | false, false => none

/-- Moves the zeros at the end of the digits into the unit; `fuel` bounds their number. -/
def stripZeros : Nat → Nat → Int → Nat × Int
  | 0, digits, unit => (digits, unit)
  | fuel + 1, digits, unit =>
    if digits % 10 = 0 then stripZeros fuel (digits / 10) (unit + 1) else (digits, unit)

/-- The decimal with the value `digits * 10^unit`. -/
def ofUnits (digits : Nat) (unit : Int) : Decimal :=
  let (digits, unit) := stripZeros (digitCount digits) digits unit
  ⟨digits, unit + digitCount digits⟩

/-- Tries the grids of `n`, `n + 1`, … digits, `fuel` of them. -/
def search (x : Binary64) (scale : Int) : Nat → Nat → Option Decimal
  | 0, _ => none
  | fuel + 1, n =>
    match neighbour? x (scale - n) with
    | some digits => some (ofUnits digits (scale - n))
    | none => search x scale fuel (n + 1)

/-- The shortest decimal that reads back as a positive finite number. Seventeen digits always do;
the exact value stands for a number for which they would not. -/
def ofBinary64 (x : Binary64) : Decimal :=
  let (num, den) := x.ratio
  match search x (scale num den) 17 1 with
  | some d => d
  | none => ofUnits (num * Nat.pow 10 (Nat.log2 den) / den) (-(Nat.log2 den : Int))

end Decimal

end Replica
