import Replica.Json.Basic

/-!
# Numbers as they are written

A number is written as digits, which a fraction and an exponent may follow. Integers from `-2^63` to
`2^64 - 1` are read as such. Every other number is a floating-point number; its significant digits
are taken as long as they fit a 64-bit word and are then scaled by a power of ten, each step
rounded. A number beyond the finite ones has no value.
-/

namespace Replica.Json

/-- The parts of a number behind its sign. -/
structure NumberText where
  /-- The digits before the point. -/
  whole : List Char
  /-- The digits behind the point, if there is one. -/
  fraction : Option (List Char)
  /-- Whether the exponent is negative, and its digits, if there is one. -/
  exponent : Option (Bool × List Char)

/-- Splits the leading digits off. -/
def spanDigits (cs : List Char) : List Char × List Char :=
  (cs.takeWhile Char.isDigit, cs.dropWhile Char.isDigit)

/-- Reads the parts of a number: no zero before another digit, and a digit at least before the
point, behind it and in the exponent. -/
def numberText? (cs : List Char) : Option (NumberText × List Char) := do
  let (whole, r) := spanDigits cs
  if whole.isEmpty || (whole.head? == some '0' && whole.length != 1) then none
  let (fraction, r) ← match r with
    | '.' :: r =>
      let (digits, r) := spanDigits r
      if digits.isEmpty then none else some (some digits, r)
    | r => some (none, r)
  match r with
  | c :: r' =>
    if c == 'e' || c == 'E' then
      let (negative, r') := match r' with
        | '-' :: r' => (true, r')
        | '+' :: r' => (false, r')
        | r' => (false, r')
      let (digits, r') := spanDigits r'
      if digits.isEmpty then none else some (⟨whole, fraction, some (negative, digits)⟩, r')
    else some (⟨whole, fraction, none⟩, r)
  | [] => some (⟨whole, fraction, none⟩, r)

/-- The value of a decimal digit. -/
def digitValue (c : Char) : Nat := c.toNat - '0'.toNat

/-- The natural number that a list of digits stands for. -/
def digitsValue (cs : List Char) : Nat := cs.foldl (fun n c => n * 10 + digitValue c) 0

/-- Takes the digits into a significand as long as it stays below `2^64`: the significand, and the
digits that no longer fit. -/
def takeDigits (significand : Nat) : List Char → Nat × List Char
  | [] => (significand, [])
  | c :: r =>
    let next := significand * 10 + digitValue c
    if next < Nat.pow 2 64 then takeDigits next r else (significand, c :: r)

/-- The quotient of a number by a power of ten, in steps of `10^308`; `fuel` bounds their number. -/
def scaleDown (x : Binary64) : Nat → Nat → Option Binary64
  | 0, _ => none
  | fuel + 1, exponent =>
    if exponent ≤ 308 then (Binary64.ofNat? (Nat.pow 10 exponent)).bind x.div?
    else if x.isZero then some x
    else do
      let step ← Binary64.ofNat? (Nat.pow 10 308)
      scaleDown (← x.div? step) fuel (exponent - 308)

/-- The number `significand * 10^exponent`: the significand is rounded first, and then its product
or quotient by the rounded power of ten. -/
def scaled? (significand : Nat) (exponent : Int) : Option Binary64 := do
  let x ← Binary64.ofNat? significand
  if exponent < 0 then scaleDown x 8 exponent.natAbs
  else if exponent ≤ 308 then x.mul? (← Binary64.ofNat? (Nat.pow 10 exponent.natAbs))
  else if x.isZero then some x
  else none

/-- The floating-point number of a text. Digits that no longer fit the significand count as zeros
before the point and not at all behind it. -/
def NumberText.float? (t : NumberText) : Option Binary64 :=
  let (significand, skipped) := takeDigits 0 t.whole
  let fraction := t.fraction.getD []
  let (significand, unused) := takeDigits significand fraction
  let exponent : Int := skipped.length - (fraction.length - unused.length : Nat)
  match t.exponent with
  | none => scaled? significand exponent
  | some (negative, digits) =>
    let size := digitsValue digits
    -- An exponent that no 31-bit word holds leaves only zero.
    if Nat.pow 2 31 ≤ size then
      if significand ≠ 0 ∧ !negative then none else some default
    else scaled? significand (if negative then exponent - size else exponent + size)

/-- The value of a number with the given sign. -/
def NumberText.value? (negative : Bool) (t : NumberText) : Option Json :=
  let n := digitsValue t.whole
  if t.fraction.isNone && t.exponent.isNone && !negative && n < Nat.pow 2 64 then some (.int n)
  else if t.fraction.isNone && t.exponent.isNone && negative && n ≠ 0 && n ≤ Nat.pow 2 63 then
    some (.int (-n))
  else t.float?.map fun x => .float (if negative then x.neg else x)

end Replica.Json
