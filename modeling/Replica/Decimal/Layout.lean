import Replica.Decimal.Shortest

/-!
# Writing a binary number in decimal

The digits of a number are chosen by `Decimal.ofBinary64`. How they are laid out is the business of
a `Decimal.Layout`, one record of the decisions a text format takes.
-/

namespace Replica.Decimal

/-- The decisions of a text format about decimals. -/
structure Layout where
  /-- The least exponent of the first digit that is written positionally. -/
  leastPositional : Int
  /-- The greatest exponent of the first digit that is written positionally. -/
  greatestPositional : Int
  /-- What follows a number that is written positionally and has no fraction. -/
  integralTail : List Char
  /-- What stands between the digits and an exponent that is not negative. -/
  positiveMark : List Char
  /-- What stands between the digits and a negative exponent. -/
  negativeMark : List Char

/-- The digits of a natural number. -/
def digitChars (n : Nat) : List Char := Nat.toDigits 10 n

/-- The digits with the point where it belongs, zeros filling the places that have no digit. -/
def positional (l : Layout) (digits : List Char) (point : Int) : List Char :=
  if point ≤ 0 then '0' :: '.' :: (List.replicate (-point).toNat '0' ++ digits)
  else if digits.length ≤ point.toNat then
    digits ++ List.replicate (point.toNat - digits.length) '0' ++ l.integralTail
  else digits.take point.toNat ++ '.' :: digits.drop point.toNat

/-- The digits with the point after the first one, and the exponent. -/
def scientific (l : Layout) (digits : List Char) (exponent : Int) : List Char :=
  let fraction := match digits.drop 1 with
    | [] => []
    | rest => '.' :: rest
  let mark := if exponent < 0 then l.negativeMark else l.positiveMark
  digits.take 1 ++ fraction ++ mark ++ digitChars exponent.natAbs

/-- Lays out a decimal. -/
def layOut (l : Layout) (d : Decimal) : List Char :=
  let digits := digitChars d.digits
  let exponent := d.point - 1
  if l.leastPositional ≤ exponent ∧ exponent ≤ l.greatestPositional then positional l digits d.point
  else scientific l digits exponent

/-- The text of a finite number: sign, and the shortest digits that read back. -/
def write (l : Layout) (x : Binary64) : List Char :=
  let unsigned := if x.isZero then '0' :: l.integralTail else layOut l (ofBinary64 x)
  if x.isNegative then '-' :: unsigned else unsigned

end Replica.Decimal
