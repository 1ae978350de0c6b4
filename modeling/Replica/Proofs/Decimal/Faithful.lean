import Replica.Proofs.Decimal.Nearest
import Replica.Json.Printer

/-!
# The text of a number determines it

`Decimal.ofBinary64` searches for few digits and may give up. Either way the decimal that it finds
is read as the number it stands for (`readsAs_value`), so two numbers with one decimal have one
magnitude. The text of a decimal has its value (`textValue_layOut`), in either notation. Together:
different numbers have different texts (`write_injective`).
-/

namespace Replica.Decimal

open Binary64 (nearest zpow_eq_div_pow)

/-- The exact value of a decimal. -/
def value (d : Decimal) : ℚ := d.digits * 10 ^ (d.point - digitCount d.digits)

/-- The value `v` is positive and is read as the magnitude of `x`. -/
def ReadsAs (v : ℚ) (x : Binary64) : Prop :=
  ∃ num den : Nat, 0 < num ∧ 0 < den ∧ v = num / den ∧ nearest num den = x.magnitude

/-- A value that is read as a number is positive. -/
theorem ReadsAs.pos {v : ℚ} {x : Binary64} (h : ReadsAs v x) : 0 < v := by
  obtain ⟨num, den, hn, hd, rfl, -⟩ := h
  positivity

/-- A value is read as one magnitude only. -/
theorem ReadsAs.magnitude_eq {v : ℚ} {x y : Binary64} (hx : ReadsAs v x) (hy : ReadsAs v y) :
    x.magnitude = y.magnitude := by
  obtain ⟨n, d, hn, hd, rfl, hx⟩ := hx
  obtain ⟨n', d', hn', hd', hv, hy⟩ := hy
  rw [← hx, ← hy, Binary64.nearest_congr hn hd hn' hd' hv]

/-- Moving zeros from the digits into the unit keeps the value. -/
theorem stripZeros_value (fuel digits : Nat) (unit : ℤ) :
    ((stripZeros fuel digits unit).1 : ℚ) * 10 ^ (stripZeros fuel digits unit).2 =
      digits * 10 ^ unit := by
  induction fuel generalizing digits unit with
  | zero => rfl
  | succ fuel ih =>
    rw [stripZeros]
    split_ifs with h
    · rw [ih, zpow_add₀ (by norm_num), zpow_one]
      obtain ⟨k, rfl⟩ := Nat.dvd_of_mod_eq_zero h
      rw [Nat.mul_div_cancel_left _ (by norm_num)]
      push_cast
      ring
    · rfl

/-- The decimal made of digits in a unit has their value. -/
theorem value_ofUnits (digits : Nat) (unit : ℤ) :
    (ofUnits digits unit).value = digits * 10 ^ unit := by
  simp only [value, ofUnits, add_sub_cancel_right, stripZeros_value]

/-- A power of ten, as a quotient of what the grid search works with. -/
theorem mul_zpow_ten (digits : Nat) (unit : ℤ) : (digits : ℚ) * 10 ^ unit =
    ((digits * Nat.pow 10 unit.toNat : ℕ) : ℚ) / (Nat.pow 10 (-unit).toNat : ℕ) := by
  rw [zpow_eq_div_pow 10 (by norm_num), ← mul_div_assoc]
  simp only [Nat.pow_eq]
  push_cast
  rfl

end Replica.Decimal

namespace Replica.Binary64

/-- The magnitude of a number fits 63 bits. -/
theorem magnitude_lt (x : Binary64) : x.magnitude < 2 ^ 63 := by
  rw [magnitude, Nat.pow_eq]
  exact Nat.mod_lt _ (by norm_num)

/-- A number is its sign and its magnitude. -/
theorem ext_magnitude {x y : Binary64} (hs : x.isNegative = y.isNegative)
    (hm : x.magnitude = y.magnitude) : x = y := by
  obtain ⟨a⟩ := x
  obtain ⟨b⟩ := y
  simp only [isNegative, magnitude, Nat.pow_eq, decide_eq_decide] at hs hm
  have ha := a.toNat_lt
  have hb := b.toNat_lt
  congr 1
  apply UInt64.toNat_inj.1
  omega

/-- Patterns without a sign are equal only if their magnitudes are. -/
theorem ofMagnitude_inj {m n : Nat} (hm : m < 2 ^ 63) (hn : n < 2 ^ 63)
    (h : ofMagnitude false m = ofMagnitude false n) : m = n := by
  have h : UInt64.ofNat m = UInt64.ofNat n := congrArg bits h
  have h := congrArg UInt64.toNat h
  rwa [UInt64.toNat_ofNat_of_lt' (by simp only [UInt64.size]; omega),
    UInt64.toNat_ofNat_of_lt' (by simp only [UInt64.size]; omega)] at h

end Replica.Binary64

namespace Replica.Decimal

open Binary64 (nearest)

/-- What reads back as a number is read as it. -/
theorem readsAs_of_readsBack {x : Binary64} (hx : x.magnitude ≠ 0) {digits : Nat} {unit : ℤ}
    (h : readsBack x digits unit = true) : ReadsAs (digits * 10 ^ unit) x := by
  have h := eq_of_beq h
  have hpow : ∀ k : Nat, 0 < Nat.pow 10 k := fun k => Nat.pow_pos (by norm_num)
  rcases Nat.eq_zero_or_pos digits with rfl | hd
  · -- Zero reads back as zero only.
    rw [Nat.zero_mul, Binary64.ofRatio?, if_pos (.inl rfl), Option.some_inj] at h
    exact absurd (Binary64.ofMagnitude_inj (by norm_num) x.magnitude_lt h).symm hx
  · have hn := Nat.mul_pos hd (hpow unit.toNat)
    rw [Binary64.ofRatio?_eq hn.ne' (hpow _).ne'] at h
    split_ifs at h with hlt
    refine ⟨_, _, hn, hpow (-unit).toNat, mul_zpow_ten digits unit, ?_⟩
    refine Binary64.ofMagnitude_inj ?_ x.magnitude_lt (Option.some_inj.1 h)
    simp only [Nat.pow_eq] at hlt ⊢
    omega

/-- A point of a grid that was chosen reads back. -/
theorem readsBack_of_neighbour? {x : Binary64} {unit : ℤ} {digits : Nat}
    (h : neighbour? x unit = some digits) : readsBack x digits unit = true := by
  simp only [neighbour?] at h
  split at h <;> grind

/-- The search ends at digits that read back. -/
theorem search_eq_some {x : Binary64} {scale : ℤ} {fuel n : Nat} {d : Decimal}
    (h : search x scale fuel n = some d) :
    ∃ digits unit, d = ofUnits digits unit ∧ readsBack x digits unit = true := by
  induction fuel generalizing n with
  | zero => simp [search] at h
  | succ fuel ih =>
    rw [search] at h
    split at h
    · rename_i digits hdigits
      exact ⟨digits, _, (Option.some_inj.1 h).symm, readsBack_of_neighbour? hdigits⟩
    · exact ih h

/-- The decimal of a number is read as that number. -/
theorem readsAs_value {x : Binary64} (hx : x.magnitude ≠ 0) : ReadsAs (ofBinary64 x).value x := by
  simp only [ofBinary64]
  split
  · rename_i d hd
    obtain ⟨digits, unit, rfl, hback⟩ := search_eq_some hd
    rw [value_ofUnits]
    exact readsAs_of_readsBack hx hback
  · -- The decimal of last resort is the exact value: its denominator divides a power of ten.
    refine ⟨x.ratio.1, x.ratio.2, Nat.mul_pos (Binary64.significand_pos hx) (Nat.pow_pos two_pos),
      Nat.pow_pos two_pos, ?_, Binary64.nearest_ratio hx⟩
    have hden : x.ratio.2 = 2 ^ (-x.exponent).toNat := by simp only [Binary64.ratio, Nat.pow_eq]
    rw [value_ofUnits, hden, Nat.log2_two_pow, Nat.pow_eq]
    generalize (-x.exponent).toNat = k
    have hpow : (10 : ℕ) ^ k = 5 ^ k * 2 ^ k := by rw [← Nat.mul_pow]
    rw [hpow, ← mul_assoc, Nat.mul_div_cancel _ (by positivity), zpow_neg, zpow_natCast]
    push_cast
    rw [show (10 : ℚ) ^ k = 5 ^ k * 2 ^ k by rw [← mul_pow]; norm_num]
    field_simp

/-! ## The value of a text -/

/-- The value of digits with at most one point among them. -/
def mantissaValue (cs : List Char) : ℚ :=
  Nat.ofDigitChars 10 (cs.filter (· ≠ '.')) 0 / 10 ^ ((cs.dropWhile (· ≠ '.')).drop 1).length

/-- The value of an exponent with its sign; no exponent counts as zero. -/
def exponentValue : List Char → ℤ
  | '-' :: digits => -(Nat.ofDigitChars 10 digits 0 : ℤ)
  | cs => Nat.ofDigitChars 10 (cs.drop 1) 0

/-- The value of the text of a number without sign. -/
def textValue (cs : List Char) : ℚ :=
  mantissaValue (cs.takeWhile (· ≠ 'e')) * 10 ^ exponentValue ((cs.dropWhile (· ≠ 'e')).drop 1)

/-- A text of decimal digits. -/
def Digits (cs : List Char) : Prop := ∀ c ∈ cs, c.isDigit = true

/-- A natural number is written in digits. -/
theorem digits_digitChars (n : Nat) : Digits (digitChars n) := fun _ hc =>
  Nat.isDigit_of_mem_toDigits (by norm_num) (by norm_num) hc

/-- The digits of a number have its value. -/
theorem ofDigitChars_digitChars (n : Nat) : Nat.ofDigitChars 10 (digitChars n) 0 = n :=
  Nat.ofDigitChars_ten_toDigits

namespace Digits

variable {a b : List Char}

theorem append (ha : Digits a) (hb : Digits b) : Digits (a ++ b) := fun c hc =>
  (List.mem_append.1 hc).elim (ha c) (hb c)

theorem zeros (n : Nat) : Digits (List.replicate n '0') := fun c hc => by
  rw [List.eq_of_mem_replicate hc]
  rfl

theorem take (ha : Digits a) (n : Nat) : Digits (a.take n) := fun c hc =>
  ha c (List.mem_of_mem_take hc)

theorem drop (ha : Digits a) (n : Nat) : Digits (a.drop n) := fun c hc =>
  ha c (List.mem_of_mem_drop hc)

theorem ne_point (ha : Digits a) : ∀ c ∈ a, c ≠ '.' := by
  rintro c hc rfl
  exact absurd (ha _ hc) (by decide)

theorem ne_mark (ha : Digits a) : ∀ c ∈ a, c ≠ 'e' := by
  rintro c hc rfl
  exact absurd (ha _ hc) (by decide)

/-- Digits without a point are a natural number. -/
theorem mantissaValue_eq (ha : Digits a) : mantissaValue a = Nat.ofDigitChars 10 a 0 := by
  have hfilter : a.filter (· ≠ '.') = a := by simpa [List.filter_eq_self] using ha.ne_point
  have hdrop : a.dropWhile (· ≠ '.') = [] := by simpa [List.dropWhile_eq_nil_iff] using ha.ne_point
  rw [mantissaValue, hfilter, hdrop]
  simp

/-- Digits with a point are a quotient by a power of ten. -/
theorem mantissaValue_point (ha : Digits a) (hb : Digits b) :
    mantissaValue (a ++ '.' :: b) = Nat.ofDigitChars 10 (a ++ b) 0 / 10 ^ b.length := by
  have hfa : a.filter (· ≠ '.') = a := by simpa [List.filter_eq_self] using ha.ne_point
  have hfb : b.filter (· ≠ '.') = b := by simpa [List.filter_eq_self] using hb.ne_point
  have hdrop : (a ++ '.' :: b).dropWhile (· ≠ '.') = '.' :: b := by
    rw [List.dropWhile_append_of_pos (by simpa using ha.ne_point)]
    rfl
  rw [mantissaValue, List.filter_append, List.filter_cons_of_neg (by simp), hfa, hfb, hdrop]
  rfl

end Digits

/-- Without an exponent the value of a text is that of its mantissa. -/
theorem textValue_of_no_mark {cs : List Char} (h : ∀ c ∈ cs, c ≠ 'e') :
    textValue cs = mantissaValue cs := by
  have htake : cs.takeWhile (· ≠ 'e') = cs := by simpa [List.takeWhile_eq_self_iff] using h
  have hdrop : cs.dropWhile (· ≠ 'e') = [] := by simpa [List.dropWhile_eq_nil_iff] using h
  rw [textValue, htake, hdrop]
  simp [exponentValue]

/-- A text with an exponent has the value of its mantissa, scaled. -/
theorem textValue_mark {cs exponent : List Char} (h : ∀ c ∈ cs, c ≠ 'e') :
    textValue (cs ++ 'e' :: exponent) = mantissaValue cs * 10 ^ exponentValue exponent := by
  have htake : (cs ++ 'e' :: exponent).takeWhile (· ≠ 'e') = cs := by
    rw [List.takeWhile_append_of_pos (by simpa using h)]
    simp
  have hdrop : (cs ++ 'e' :: exponent).dropWhile (· ≠ 'e') = 'e' :: exponent := by
    rw [List.dropWhile_append_of_pos (by simpa using h)]
    simp
  rw [textValue, htake, hdrop]
  rfl

/-- Text with a point between digits has no exponent. -/
theorem Digits.textValue_point {a b : List Char} (ha : Digits a) (hb : Digits b) :
    textValue (a ++ '.' :: b) = Nat.ofDigitChars 10 (a ++ b) 0 / 10 ^ b.length := by
  rw [textValue_of_no_mark, ha.mantissaValue_point hb]
  intro c hc
  rcases List.mem_append.1 hc with hc | hc
  · exact ha.ne_mark c hc
  · rcases List.mem_cons.1 hc with rfl | hc
    · decide
    · exact hb.ne_mark c hc

/-- The positional text of digits has their value. -/
theorem textValue_positional {digits : List Char} (h : Digits digits) (point : ℤ) :
    textValue (positional Json.numberLayout digits point) =
      Nat.ofDigitChars 10 digits 0 * 10 ^ (point - digits.length) := by
  have hzero : Digits ['0'] := Digits.zeros 1
  rw [positional]
  split_ifs with hneg hlong
  · -- All digits stand behind the point, after some zeros.
    rw [← List.singleton_append,
      hzero.textValue_point ((Digits.zeros (-point).toNat).append h),
      Nat.ofDigitChars_append, Nat.ofDigitChars_append, Nat.ofDigitChars_replicate_zero,
      List.length_append, List.length_replicate, div_eq_mul_inv, ← zpow_natCast, ← zpow_neg]
    congr 2
    push_cast
    omega
  · -- All digits stand before the point, and some zeros after them.
    rw [show Json.numberLayout.integralTail = '.' :: ['0'] from rfl,
      (h.append (Digits.zeros _)).textValue_point hzero,
      Nat.ofDigitChars_append, Nat.ofDigitChars_append, Nat.ofDigitChars_replicate_zero]
    obtain ⟨n, rfl⟩ : ∃ n : ℕ, point = n := ⟨point.toNat, by omega⟩
    rw [Int.toNat_natCast] at *
    have hpow : (10 : ℚ) ^ ((n : ℤ) - digits.length) = 10 ^ (n - digits.length) := by
      rw [← zpow_natCast, Nat.cast_sub hlong]
    rw [hpow]
    simp [Nat.ofDigitChars]
    field_simp
  · -- The point stands among the digits.
    rw [(h.take _).textValue_point (h.drop _), List.take_append_drop, List.length_drop,
      div_eq_mul_inv, ← zpow_natCast, ← zpow_neg]
    congr 2
    omega

/-- The scientific text of digits has their value. -/
theorem textValue_scientific {digits : List Char} (h : Digits digits) (hne : digits ≠ [])
    (exponent : ℤ) : textValue (scientific Json.numberLayout digits exponent) =
      Nat.ofDigitChars 10 digits 0 * 10 ^ (exponent + 1 - digits.length) := by
  obtain ⟨d, rest, rfl⟩ := List.exists_cons_of_ne_nil hne
  have hd : Digits [d] := h.take 1
  have hrest : Digits rest := h.drop 1
  -- What follows the mantissa is the letter and the exponent with its sign.
  obtain ⟨cs, hcs, hexp⟩ : ∃ cs, (if exponent < 0 then Json.numberLayout.negativeMark
      else Json.numberLayout.positiveMark) ++ digitChars exponent.natAbs = 'e' :: cs ∧
      exponentValue cs = exponent := by
    split_ifs with hneg
    · refine ⟨'-' :: digitChars exponent.natAbs, rfl, ?_⟩
      rw [exponentValue, ofDigitChars_digitChars]
      omega
    · refine ⟨'+' :: digitChars exponent.natAbs, rfl, ?_⟩
      show (Nat.ofDigitChars 10 (digitChars exponent.natAbs) 0 : ℤ) = exponent
      rw [ofDigitChars_digitChars]
      omega
  simp only [scientific, List.append_assoc, hcs, List.take_succ_cons, List.take_zero,
    List.drop_succ_cons, List.drop_zero]
  cases rest with
  | nil =>
    rw [List.nil_append, textValue_mark hd.ne_mark, hd.mantissaValue_eq, hexp]
    simp
  | cons r rest =>
    have hno : ∀ c ∈ [d] ++ '.' :: (r :: rest), c ≠ 'e' := by
      have h1 := hd.ne_mark
      have h2 := hrest.ne_mark
      simp only [List.mem_append, List.mem_cons] at *
      grind
    rw [← List.append_assoc, textValue_mark hno, hd.mantissaValue_point hrest, hexp,
      div_mul_eq_mul_div, mul_div_assoc, ← zpow_natCast, ← zpow_sub₀ (by norm_num)]
    congr 2
    simp only [List.length_cons]
    push_cast
    omega

/-- The text of a decimal has its value. -/
theorem textValue_layOut (d : Decimal) : textValue (layOut Json.numberLayout d) = d.value := by
  have hd := digits_digitChars d.digits
  have hlen : (digitChars d.digits).length = digitCount d.digits := rfl
  simp only [layOut]
  split_ifs
  · rw [textValue_positional hd, ofDigitChars_digitChars, hlen, value]
  · rw [textValue_scientific hd Nat.toDigits_ne_nil, ofDigitChars_digitChars, hlen, value,
      sub_add_cancel]

/-! ## The text of a number -/

/-- The text of a number without its sign. -/
def unsigned (x : Binary64) : List Char :=
  if x.isZero then '0' :: Json.numberLayout.integralTail
  else layOut Json.numberLayout (ofBinary64 x)

/-- The text of a number is its sign and the rest. -/
theorem write_eq (x : Binary64) : write Json.numberLayout x =
    if x.isNegative then '-' :: unsigned x else unsigned x := rfl

/-- The value of the text of a number tells zeros from others, and others by their magnitude. -/
theorem magnitude_eq_of_unsigned {x y : Binary64} (h : unsigned x = unsigned y) :
    x.magnitude = y.magnitude := by
  have hzero : textValue ('0' :: Json.numberLayout.integralTail) = 0 := by
    have hd : Digits ['0'] := Digits.zeros 1
    rw [show '0' :: Json.numberLayout.integralTail = ['0'] ++ '.' :: ['0'] from rfl,
      hd.textValue_point hd]
    simp [Nat.ofDigitChars]
  have hvalue : ∀ z : Binary64, (z.magnitude = 0 ∧ textValue (unsigned z) = 0) ∨
      ReadsAs (textValue (unsigned z)) z := by
    intro z
    by_cases hz : z.magnitude = 0
    · have : z.isZero = true := by simp [Binary64.isZero, hz]
      exact .inl ⟨hz, by rw [unsigned, if_pos this, hzero]⟩
    · have : ¬ z.isZero = true := by simp [Binary64.isZero, hz]
      rw [unsigned, if_neg this, textValue_layOut]
      exact .inr (readsAs_value hz)
  rcases hvalue x with ⟨hx, hx'⟩ | hx <;> rcases hvalue y with ⟨hy, hy'⟩ | hy
  · rw [hx, hy]
  · exact absurd hy.pos (by rw [← h, hx']; exact lt_irrefl 0)
  · exact absurd hx.pos (by rw [h, hy']; exact lt_irrefl 0)
  · exact hx.magnitude_eq (h ▸ hy)

/-- A character that occurs in numbers. -/
def IsNumberChar (c : Char) : Prop := c.isDigit = true ∨ c ∈ ['-', '+', '.', 'e']

/-- A text of characters that occur in numbers. -/
def Numeric (cs : List Char) : Prop := ∀ c ∈ cs, IsNumberChar c

theorem Digits.numeric {cs : List Char} (h : Digits cs) : Numeric cs := fun c hc => .inl (h c hc)

theorem Numeric.append {a b : List Char} (ha : Numeric a) (hb : Numeric b) : Numeric (a ++ b) :=
  fun c hc => (List.mem_append.1 hc).elim (ha c) (hb c)

theorem Numeric.cons {c : Char} {cs : List Char} (hc : IsNumberChar c) (h : Numeric cs) :
    Numeric (c :: cs) := fun d hd => (List.mem_cons.1 hd).elim (fun e => e ▸ hc) (h d)

/-- The text of a decimal starts with a digit. -/
theorem exists_cons_layOut (d : Decimal) :
    ∃ c cs, layOut Json.numberLayout d = c :: cs ∧ c.isDigit = true := by
  obtain ⟨c, cs, hcs⟩ := List.exists_cons_of_ne_nil (Nat.toDigits_ne_nil (n := d.digits) (b := 10))
  have hcs : digitChars d.digits = c :: cs := hcs
  have hc : c.isDigit = true := digits_digitChars d.digits c (by simp [hcs])
  simp only [layOut, positional, scientific, hcs]
  split_ifs with _ hneg
  · exact ⟨_, _, rfl, rfl⟩
  · exact ⟨c, _, rfl, hc⟩
  · obtain ⟨n, hn⟩ : ∃ n, d.point.toNat = n + 1 := ⟨d.point.toNat - 1, by omega⟩
    rw [hn]
    exact ⟨c, _, rfl, hc⟩
  · exact ⟨c, _, rfl, hc⟩
  · exact ⟨c, _, rfl, hc⟩

/-- The text of a decimal has characters of numbers only. -/
theorem numeric_layOut (d : Decimal) : Numeric (layOut Json.numberLayout d) := by
  have hd := digits_digitChars d.digits
  have hpoint : IsNumberChar '.' := .inr (by decide)
  have hmark : Numeric Json.numberLayout.negativeMark ∧
      Numeric Json.numberLayout.positiveMark ∧ Numeric Json.numberLayout.integralTail := by
    refine ⟨?_, ?_, ?_⟩ <;> simp [Json.numberLayout, Numeric, IsNumberChar]
  simp only [layOut]
  split_ifs
  · rw [positional]
    split_ifs
    · exact .cons (.inl rfl) (.cons hpoint ((Digits.zeros _).append hd).numeric)
    · exact (hd.append (Digits.zeros _)).numeric.append hmark.2.2
    · exact (hd.take _).numeric.append (.cons hpoint (hd.drop _).numeric)
  · rw [scientific]
    refine .append (.append (.append (hd.take 1).numeric ?_) ?_) (digits_digitChars _).numeric
    · split
      · exact fun c hc => absurd hc List.not_mem_nil
      · exact .cons hpoint (hd.drop 1).numeric
    · split_ifs
      · exact hmark.1
      · exact hmark.2.1

/-- The text of a decimal has a point or an exponent, so it is not that of an integer. -/
theorem not_digits_layOut (d : Decimal) : ¬ Digits (layOut Json.numberLayout d) := by
  intro h
  simp only [layOut] at h
  split_ifs at h
  · refine h.ne_point '.' ?_ rfl
    rw [positional]
    split_ifs <;> simp [Json.numberLayout]
  · refine h.ne_mark 'e' ?_ rfl
    rw [scientific]
    split_ifs <;> simp [Json.numberLayout]

/-- The text of a number without its sign starts with a digit. -/
theorem exists_cons_unsigned (x : Binary64) :
    ∃ c cs, unsigned x = c :: cs ∧ c.isDigit = true := by
  rw [unsigned]
  split_ifs
  · exact ⟨_, _, rfl, rfl⟩
  · exact exists_cons_layOut _

/-- Different numbers have different texts. -/
theorem write_injective : Function.Injective (write Json.numberLayout) := by
  intro x y h
  rw [write_eq, write_eq] at h
  obtain ⟨c, cs, hx, hc⟩ := exists_cons_unsigned x
  obtain ⟨d, ds, hy, hd⟩ := exists_cons_unsigned y
  split_ifs at h with hnx hny hny
  · rw [List.cons.injEq] at h
    exact Binary64.ext_magnitude (by rw [hnx, hny]) (magnitude_eq_of_unsigned h.2)
  · rw [hy, List.cons.injEq] at h
    exact absurd hd (by rw [← h.1]; decide)
  · rw [hx, List.cons.injEq] at h
    exact absurd hc (by rw [h.1]; decide)
  · exact Binary64.ext_magnitude (by simp_all) (magnitude_eq_of_unsigned h)

/-- The text of a number has characters of numbers only. -/
theorem numeric_write (x : Binary64) : Numeric (write Json.numberLayout x) := by
  have h : Numeric (unsigned x) := by
    rw [unsigned]
    split_ifs
    · simp [Json.numberLayout, Numeric, IsNumberChar]
    · exact numeric_layOut _
  rw [write_eq]
  split_ifs
  · exact .cons (.inr (by decide)) h
  · exact h

/-- The text of a number is not that of an integer: its digits are not all there is behind the
sign. -/
theorem not_digits_unsigned (x : Binary64) : ¬ Digits (unsigned x) := by
  rw [unsigned]
  split_ifs
  · intro h
    exact h.ne_point '.' (by simp [Json.numberLayout]) rfl
  · exact not_digits_layOut _

end Replica.Decimal
