import Mathlib
import Replica.Binary64

/-!
# The number nearest to a quotient

`Binary64.ofRatio?` works on numerators and denominators. What it finds depends on their quotient
only (`nearest_congr`), and the exact value of a number is read as that number (`nearest_ratio`).
Both rest on `leading_eq_log`: the exponent of the leading bit is the binary logarithm of the
quotient.
-/

namespace Replica.Binary64

/-- A power with an integer exponent, as a quotient of powers with natural exponents. -/
theorem zpow_eq_div_pow (b : ℚ) (hb : b ≠ 0) (z : ℤ) : b ^ z = b ^ z.toNat / b ^ (-z).toNat := by
  rw [← zpow_natCast b z.toNat, ← zpow_natCast b (-z).toNat, ← zpow_sub₀ hb]
  congr 1
  omega

/-- The exponent `e` with `2^e ≤ num / den < 2^(e + 1)`, estimated from the lengths of both
numbers and corrected by a comparison. -/
def leading (num den : Nat) : Int :=
  let estimate : Int := (Nat.log2 num : Int) - (Nat.log2 den : Int)
  if den * Nat.pow 2 estimate.toNat ≤ num * Nat.pow 2 (-estimate).toNat then estimate
  else estimate - 1

/-- The magnitude of the number nearest to `num / den`, were there no largest number. -/
def nearest (num den : Nat) : Nat :=
  let q := max (leading num den - 52) (-1074)
  let m := roundQuotient (num * Nat.pow 2 (-q).toNat) (den * Nat.pow 2 q.toNat)
  if m < Nat.pow 2 52 then m else (q + 1075).toNat * Nat.pow 2 52 + (m - Nat.pow 2 52)

/-- The nearest magnitude, by the unit of its last place. -/
theorem nearest_eq (num den : Nat) : nearest num den =
    let q := max (leading num den - 52) (-1074)
    let m := roundQuotient (num * 2 ^ (-q).toNat) (den * 2 ^ q.toNat)
    if m < 2 ^ 52 then m else (q + 1075).toNat * 2 ^ 52 + (m - 2 ^ 52) := by
  simp only [nearest, Nat.pow_eq]

/-- Rounding a quotient is taking the nearest magnitude, if it is that of a finite number. -/
theorem ofRatio?_eq {num den : Nat} (hn : num ≠ 0) (hd : den ≠ 0) :
    ofRatio? num den = if nearest num den < 2047 * Nat.pow 2 52
      then some (ofMagnitude false (nearest num den)) else none := by
  simp only [ofRatio?, hn, hd, or_self, if_false]
  rfl

/-- The leading exponent is the binary logarithm of the quotient. -/
theorem leading_eq_log {num den : Nat} (hn : 0 < num) (hd : 0 < den) :
    leading num den = Int.log 2 ((num : ℚ) / den) := by
  have hnq : (0 : ℚ) < num := by exact_mod_cast hn
  have hdq : (0 : ℚ) < den := by exact_mod_cast hd
  have hr : (0 : ℚ) < num / den := div_pos hnq hdq
  -- Whatever the estimate, it is compared with the logarithm through powers of two.
  have hreach : ∀ z : ℤ, den * Nat.pow 2 z.toNat ≤ num * Nat.pow 2 (-z).toNat ↔
      z ≤ Int.log 2 ((num : ℚ) / den) := by
    intro z
    rw [← Int.zpow_le_iff_le_log (by norm_num) hr, Nat.cast_ofNat,
      zpow_eq_div_pow 2 two_ne_zero, div_le_div_iff₀ (by positivity) hdq, mul_comm (2 ^ _ : ℚ)]
    simp only [Nat.pow_eq]
    exact_mod_cast Iff.rfl
  have hlow : (Nat.log2 num : ℤ) - Nat.log2 den - 1 ≤ Int.log 2 ((num : ℚ) / den) := by
    rw [← Int.zpow_le_iff_le_log (by norm_num) hr, Nat.cast_ofNat, le_div_iff₀ hdq, sub_sub,
      zpow_sub₀ two_ne_zero, div_mul_eq_mul_div, div_le_iff₀ (by positivity)]
    have h1 : (2 : ℚ) ^ (Nat.log2 num : ℤ) ≤ num := by
      rw [zpow_natCast]; exact_mod_cast Nat.log2_self_le hn.ne'
    have h2 : (den : ℚ) ≤ 2 ^ ((Nat.log2 den : ℤ) + 1) := by
      rw [← Nat.cast_succ, zpow_natCast]; exact_mod_cast (Nat.lt_log2_self (n := den)).le
    exact mul_le_mul h1 h2 hdq.le hnq.le
  have hhigh : Int.log 2 ((num : ℚ) / den) < (Nat.log2 num : ℤ) - Nat.log2 den + 1 := by
    rw [← Int.lt_zpow_iff_log_lt (by norm_num) hr, Nat.cast_ofNat, div_lt_iff₀ hdq,
      sub_add_eq_add_sub, zpow_sub₀ two_ne_zero, div_mul_eq_mul_div, lt_div_iff₀ (by positivity)]
    have h1 : (2 : ℚ) ^ (Nat.log2 den : ℤ) ≤ den := by
      rw [zpow_natCast]; exact_mod_cast Nat.log2_self_le hd.ne'
    have h2 : (num : ℚ) < 2 ^ ((Nat.log2 num : ℤ) + 1) := by
      rw [← Nat.cast_succ, zpow_natCast]; exact_mod_cast Nat.lt_log2_self (n := num)
    exact mul_lt_mul h2 h1 (by positivity) (by positivity)
  simp only [leading, hreach]
  split_ifs <;> omega

/-- Rounding to a natural number depends on the quotient only. -/
theorem roundQuotient_congr {n d n' d' : Nat} (hd : 0 < d) (hd' : 0 < d')
    (h : n * d' = n' * d) : roundQuotient n d = roundQuotient n' d' := by
  have hdiv : n / d = n' / d' := by
    rw [← Nat.mul_div_mul_right n d hd', h, mul_comm d d', Nat.mul_div_mul_right n' d' hd]
  have hrest : n % d * d' = n' % d' * d := by
    rw [← Nat.mul_mod_mul_right, h, mul_comm d d', Nat.mul_mod_mul_right]
  -- Both rests are compared with the halves of their denominators.
  have hscale : 2 * (n % d) * d' = 2 * (n' % d') * d := by rw [mul_assoc, hrest, mul_assoc]
  have hless : 2 * (n % d) < d ↔ 2 * (n' % d') < d' := by
    rw [← Nat.mul_lt_mul_right hd', hscale, mul_comm d d', Nat.mul_lt_mul_right hd]
  have hmore : d < 2 * (n % d) ↔ d' < 2 * (n' % d') := by
    rw [← Nat.mul_lt_mul_right hd', hscale, mul_comm d d', Nat.mul_lt_mul_right hd]
  simp only [roundQuotient, hdiv, gt_iff_lt, hless, hmore]

/-- Quotients of the same value have the same nearest magnitude. -/
theorem nearest_congr {n d n' d' : Nat} (hn : 0 < n) (hd : 0 < d) (hn' : 0 < n') (hd' : 0 < d')
    (h : (n : ℚ) / d = n' / d') : nearest n d = nearest n' d' := by
  have hcross : n * d' = n' * d := by
    rw [div_eq_div_iff (by positivity) (by positivity)] at h
    exact_mod_cast h
  have hlead : leading n d = leading n' d' := by
    rw [leading_eq_log hn hd, leading_eq_log hn' hd', h]
  have hround : ∀ a b : Nat, 0 < b →
      roundQuotient (n * a) (d * b) = roundQuotient (n' * a) (d' * b) := by
    intro a b hb
    refine roundQuotient_congr (by positivity) (by positivity) ?_
    calc n * a * (d' * b) = n * d' * (a * b) := by ring
      _ = n' * d * (a * b) := by rw [hcross]
      _ = n' * a * (d * b) := by ring
  simp only [nearest, hlead, hround _ _ (show 0 < Nat.pow 2 _ from Nat.pow_pos two_pos)]

/-- The significand by cases on the exponent field. -/
theorem significand_eq (x : Binary64) : x.significand =
    if x.magnitude / 2 ^ 52 = 0 then x.magnitude % 2 ^ 52 else x.magnitude % 2 ^ 52 + 2 ^ 52 := by
  simp only [significand, Nat.pow_eq]

/-- The exponent by cases on its field. -/
theorem exponent_eq (x : Binary64) : x.exponent =
    if x.magnitude / 2 ^ 52 = 0 then -1074 else ((x.magnitude / 2 ^ 52 : ℕ) : ℤ) - 1075 := by
  simp only [exponent, Nat.pow_eq]

/-- A number that is not zero has a significand that is not zero. -/
theorem significand_pos {x : Binary64} (hx : x.magnitude ≠ 0) : 0 < x.significand := by
  rw [significand_eq]
  generalize x.magnitude = m at *
  split_ifs with h <;> omega

/-- The exact value of a number, as a rational. -/
theorem ratio_eq_zpow (x : Binary64) :
    (x.ratio.1 : ℚ) / x.ratio.2 = x.significand * 2 ^ x.exponent := by
  rw [zpow_eq_div_pow 2 two_ne_zero, ratio, ← mul_div_assoc]
  simp only [Nat.pow_eq]
  push_cast
  rfl

/-- Rounding a multiple of the denominator changes nothing. -/
theorem roundQuotient_mul (m d : Nat) (hd : 0 < d) : roundQuotient (m * d) d = m := by
  simp only [roundQuotient, Nat.mul_div_cancel _ hd, Nat.mul_mod_left]
  simp [hd]

/-- The binary logarithm of a multiple of a power of two. -/
theorem log_mul_zpow {n : Nat} (hn : 0 < n) (z : ℤ) :
    Int.log 2 ((n : ℚ) * 2 ^ z) = Nat.log 2 n + z := by
  have hz : (0 : ℚ) < 2 ^ z := by positivity
  have hr : (0 : ℚ) < n * 2 ^ z := by positivity
  have hlow : (2 : ℚ) ^ Nat.log 2 n ≤ n := by exact_mod_cast Nat.pow_log_le_self 2 hn.ne'
  have hhigh : (n : ℚ) < 2 ^ (Nat.log 2 n + 1) := by
    exact_mod_cast Nat.lt_pow_succ_log_self one_lt_two n
  have hle : (Nat.log 2 n : ℤ) + z ≤ Int.log 2 ((n : ℚ) * 2 ^ z) := by
    rw [← Int.zpow_le_iff_le_log (by norm_num) hr, Nat.cast_ofNat, zpow_add₀ two_ne_zero,
      zpow_natCast]
    exact mul_le_mul_of_nonneg_right hlow hz.le
  have hlt : Int.log 2 ((n : ℚ) * 2 ^ z) < ((Nat.log 2 n + 1 : ℕ) : ℤ) + z := by
    rw [← Int.lt_zpow_iff_log_lt (by norm_num) hr, Nat.cast_ofNat, zpow_add₀ two_ne_zero,
      zpow_natCast]
    exact mul_lt_mul_of_pos_right hhigh hz
  omega

/-- The unit of the last place of a number is the one that rounding its exact value takes. -/
theorem unit_ratio {x : Binary64} (hx : x.magnitude ≠ 0) :
    max (leading x.ratio.1 x.ratio.2 - 52) (-1074) = x.exponent := by
  have hs := significand_pos hx
  have hn : 0 < x.ratio.1 := Nat.mul_pos hs (Nat.pow_pos two_pos)
  have hd : 0 < x.ratio.2 := Nat.pow_pos two_pos
  rw [leading_eq_log hn hd, ratio_eq_zpow, log_mul_zpow hs]
  have hlow := Nat.pow_log_le_self 2 hs.ne'
  have hhigh := Nat.lt_pow_succ_log_self one_lt_two x.significand
  rw [significand_eq] at *
  rw [exponent_eq]
  generalize x.magnitude = m at *
  split_ifs at * with h
  · -- A small number has fewer than 53 bits, and its unit is the least one.
    have : Nat.log 2 (m % 2 ^ 52) < 52 := by
      by_contra hge
      have := Nat.pow_le_pow_right two_pos (not_lt.1 hge)
      omega
    omega
  · -- Any other one has exactly 53 bits.
    have : Nat.log 2 (m % 2 ^ 52 + 2 ^ 52) = 52 := by
      refine (Nat.log_eq_iff (by norm_num)).2 ?_
      omega
    omega

/-- The exact value of a number that is not zero is nearest to that number. -/
theorem nearest_ratio {x : Binary64} (hx : x.magnitude ≠ 0) :
    nearest x.ratio.1 x.ratio.2 = x.magnitude := by
  have hround : roundQuotient (x.ratio.1 * 2 ^ (-x.exponent).toNat)
      (x.ratio.2 * 2 ^ x.exponent.toNat) = x.significand := by
    simp only [ratio, Nat.pow_eq]
    rw [mul_assoc, mul_comm (2 ^ (-x.exponent).toNat)]
    exact roundQuotient_mul _ _ (by positivity)
  rw [nearest_eq, unit_ratio hx]
  dsimp only
  rw [hround, significand_eq, exponent_eq]
  generalize x.magnitude = m
  by_cases h : m / 2 ^ 52 = 0
  · rw [if_pos h, if_pos h, if_pos (by omega)]
    omega
  · rw [if_neg h, if_neg h, if_neg (by omega)]
    omega

end Replica.Binary64
