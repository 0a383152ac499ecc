/-
# Rounding to magnitudes

A ratio is rounded by its value alone, however it is written: the power of two of its first
binary digit is its logarithm, and the quotient that is rounded is a ratio again. So decimals
of one value are read as one magnitude, and a decimal that has the value of a magnitude is
read as that magnitude.

This needs magnitudes to be written in one way. In the canonical one the mantissa fills its
digits unless the exponent is the least, and the bits tell two canonical magnitudes apart.
-/

import LoxLang.Number.Decimal
import Mathlib.Data.Int.Log
import Mathlib.Data.Rat.Floor
import Mathlib.Tactic.Positivity
import Mathlib.Tactic.Ring

namespace LoxLang

/-! ## Rounding a quotient -/

theorem compare_mul_right (n m : Nat) {size : Nat} (hsize : 0 < size) :
    compare (n * size) (m * size) = compare n m := by
  rw [Nat.compare_eq_ite_lt, Nat.compare_eq_ite_lt]
  simp only [Nat.mul_lt_mul_right hsize]

/-- Which neighbour is nearer depends on no more than the ratio of what is left over. -/
theorem Tie.prefersAbove_congr (tie : Tie) (lower : Nat) {remainder unit other size : Nat}
    (hunit : 0 < unit) (hsize : 0 < size) (h : remainder * size = other * unit) :
    tie.prefersAbove lower remainder unit = tie.prefersAbove lower other size := by
  have hcompare : compare (2 * remainder) unit = compare (2 * other) size := by
    rw [← compare_mul_right (2 * remainder) unit hsize, ← compare_mul_right (2 * other) size hunit,
      Nat.mul_assoc, h, Nat.mul_assoc, Nat.mul_comm unit]
  unfold prefersAbove
  rw [hcompare]

/-- A quotient is rounded by its value. -/
theorem roundQuotient_congr (tie : Tie) {num den other size : Nat} (hden : 0 < den)
    (hsize : 0 < size) (h : num * size = other * den) :
    roundQuotient tie num den = roundQuotient tie other size := by
  have hdiv : num / den = other / size := by
    rw [← Nat.mul_div_mul_right num den hsize, h, Nat.mul_comm den,
      Nat.mul_div_mul_right other size hden]
  have hmod : num % den * size = other % size * den := by
    rw [← Nat.mul_mod_mul_right, h, Nat.mul_comm den, Nat.mul_mod_mul_right]
  rw [roundQuotient, roundQuotient, hdiv, tie.prefersAbove_congr (other / size) hden hsize hmod]

theorem roundQuotient_one (tie : Tie) (num : Nat) : roundQuotient tie num 1 = num := by
  rw [roundQuotient, Nat.div_one, Nat.mod_one]
  rfl

namespace Magnitude

/-! ## Rounding a ratio -/

variable {num den : Nat}

theorem scaled_pos (hden : 0 < den) (power : Int) : 0 < (scaled num den power).2 := by
  cases power with
  | ofNat n => exact hden
  | negSucc n =>
      rw [scaled, Nat.shiftLeft_eq]
      exact Nat.mul_pos hden (Nat.two_pow_pos _)

/-- Scaling a ratio multiplies it by the power of two. -/
theorem scaled_ratio (num den : Nat) (power : Int) :
    ((scaled num den power).1 : ℚ) / (scaled num den power).2 = num / den * 2 ^ power := by
  cases power with
  | ofNat n =>
      rw [scaled, Nat.shiftLeft_eq, Int.ofNat_eq_natCast, zpow_natCast]
      push_cast
      ring
  | negSucc n =>
      rw [scaled, Nat.shiftLeft_eq, zpow_negSucc]
      push_cast
      rw [div_mul_eq_div_div]
      rfl

/-- Between two powers of two lies what has the lower one for its first binary digit. -/
theorem log_eq {q : ℚ} {power : Int} (hlow : 2 ^ power ≤ q) (hhigh : q < 2 ^ (power + 1)) :
    Int.log 2 q = power := by
  have hpos : 0 < q := lt_of_lt_of_le (zpow_pos (by norm_num) power) hlow
  have hle : power ≤ Int.log 2 q := (Int.zpow_le_iff_le_log (by norm_num) hpos).mp hlow
  have hlt : Int.log 2 q < power + 1 := (Int.lt_zpow_iff_log_lt (by norm_num) hpos).mp hhigh
  omega

/-- A positive number lies between the powers of two that its logarithm tells. -/
theorem log2_bounds (hnum : 0 < num) :
    (2 : ℚ) ^ (num.log2 : Int) ≤ num ∧ (num : ℚ) < 2 ^ ((num.log2 : Int) + 1) := by
  have hlow : 2 ^ num.log2 ≤ num := Nat.log2_self_le hnum.ne'
  have hhigh : num < 2 ^ (num.log2 + 1) := Nat.lt_log2_self
  constructor
  · rw [zpow_natCast]
    exact_mod_cast hlow
  · exact_mod_cast hhigh

/-- The logarithms of a ratio's parts tell its own up to one. -/
theorem ratio_bounds (hnum : 0 < num) (hden : 0 < den) :
    (2 : ℚ) ^ ((num.log2 : Int) - den.log2 - 1) ≤ num / den ∧
      (num : ℚ) / den < 2 ^ ((num.log2 : Int) - den.log2 + 1) := by
  obtain ⟨hlownum, hhighnum⟩ := log2_bounds hnum
  obtain ⟨hlowden, hhighden⟩ := log2_bounds hden
  have hratio : (0 : ℚ) < den := by exact_mod_cast hden
  have htwo (power : Int) : (0 : ℚ) < 2 ^ power := zpow_pos (by norm_num) power
  constructor
  · rw [le_div_iff₀ hratio]
    calc (2 : ℚ) ^ ((num.log2 : Int) - den.log2 - 1) * den
        ≤ 2 ^ ((num.log2 : Int) - den.log2 - 1) * 2 ^ ((den.log2 : Int) + 1) :=
          mul_le_mul_of_nonneg_left hhighden.le (htwo _).le
      _ = 2 ^ (num.log2 : Int) := by
          rw [← zpow_add₀ (by norm_num)]
          congr 1
          ring
      _ ≤ num := hlownum
  · rw [div_lt_iff₀ hratio]
    calc (num : ℚ) < 2 ^ ((num.log2 : Int) + 1) := hhighnum
      _ = 2 ^ ((num.log2 : Int) - den.log2 + 1) * 2 ^ (den.log2 : Int) := by
          rw [← zpow_add₀ (by norm_num)]
          congr 1
          ring
      _ ≤ 2 ^ ((num.log2 : Int) - den.log2 + 1) * den :=
          mul_le_mul_of_nonneg_left hlowden (htwo _).le

/-- A ratio that is scaled down by a power of two tells whether it is at least that power. -/
theorem scaled_le_iff (hden : 0 < den) (power : Int) :
    (scaled num den (-power)).2 ≤ (scaled num den (-power)).1 ↔ (2 : ℚ) ^ power ≤ num / den := by
  have hpos : (0 : ℚ) < (scaled num den (-power)).2 := by exact_mod_cast scaled_pos hden _
  rw [← Nat.cast_le (α := ℚ), ← one_le_div₀ hpos, scaled_ratio, zpow_neg, ← div_eq_mul_inv,
    one_le_div₀ (zpow_pos (by norm_num) power)]

/-- The first binary digit of a ratio is where its logarithm says. -/
theorem ratioLog_eq (hnum : 0 < num) (hden : 0 < den) :
    ratioLog num den = Int.log 2 ((num : ℚ) / den) := by
  -- the estimate is right or one too large, and the scaled ratio tells which
  obtain ⟨hlow, hhigh⟩ := ratio_bounds hnum hden
  rw [ratioLog]
  dsimp only
  split
  next h => exact (log_eq ((scaled_le_iff hden _).mp h) hhigh).symm
  next h =>
    have hlt : (num : ℚ) / den < 2 ^ ((num.log2 : Int) - den.log2) :=
      lt_of_not_ge (mt (scaled_le_iff hden _).mpr h)
    refine (log_eq hlow ?_).symm
    rw [Int.sub_add_cancel]
    exact hlt

/-! ## The parts of a rounded ratio -/

theorem exponent_ofRatio (hden : 0 < den) : (ofRatio num den).exponent =
    if (num : ℚ) / den = 0 then leastExponent
    else max (Int.log 2 ((num : ℚ) / den) - 52) leastExponent := by
  have hdenominator : (den : ℚ) ≠ 0 := by exact_mod_cast hden.ne'
  have hzero : (num : ℚ) / den = 0 ↔ num = 0 := by
    rw [div_eq_zero_iff, Nat.cast_eq_zero]
    exact or_iff_left hdenominator
  rw [ofRatio]
  dsimp only
  by_cases hnum : num = 0
  · rw [if_pos hnum, if_pos (hzero.mpr hnum)]
  · rw [if_neg hnum, if_neg (mt hzero.mp hnum), ratioLog_eq (Nat.pos_of_ne_zero hnum) hden]

theorem mantissa_ofRatio (num den : Nat) : (ofRatio num den).mantissa =
    roundQuotient .even (scaled num den (-(ofRatio num den).exponent)).1
      (scaled num den (-(ofRatio num den).exponent)).2 :=
  rfl

/-- A scaled ratio is rounded by its value. -/
theorem roundQuotient_scaled {other size : Nat} {power : Int} (hden : 0 < den) (hsize : 0 < size)
    (h : (num : ℚ) / den * 2 ^ power = other / size) :
    roundQuotient .even (scaled num den power).1 (scaled num den power).2 =
      roundQuotient .even other size := by
  have hpos := @scaled_pos num den hden power
  rw [← scaled_ratio, div_eq_div_iff (by exact_mod_cast hpos.ne') (by exact_mod_cast hsize.ne')]
    at h
  exact roundQuotient_congr .even hpos hsize (by exact_mod_cast h)

/-- A ratio is rounded by its value. -/
theorem ofRatio_congr {other size : Nat} (hden : 0 < den) (hsize : 0 < size)
    (h : (num : ℚ) / den = other / size) : ofRatio num den = ofRatio other size := by
  have hexponent : (ofRatio num den).exponent = (ofRatio other size).exponent := by
    rw [exponent_ofRatio hden, exponent_ofRatio hsize, h]
  have hmantissa : (ofRatio num den).mantissa = (ofRatio other size).mantissa := by
    rw [mantissa_ofRatio, mantissa_ofRatio, hexponent]
    apply roundQuotient_scaled hden (scaled_pos hsize _)
    rw [h, scaled_ratio]
  exact congrArg₂ Magnitude.mk hmantissa hexponent

/-! ## Canonical magnitudes -/

/-- The number that the magnitude stands for. -/
def value (m : Magnitude) : ℚ :=
  m.mantissa * 2 ^ m.exponent

/-- The magnitude is written with as small an exponent as it can be. -/
structure Canonical (m : Magnitude) : Prop where
  least_le : leastExponent ≤ m.exponent
  mantissa_lt : m.mantissa < 2 * mantissas
  full : m.exponent = leastExponent ∨ mantissas ≤ m.mantissa

variable {m other : Magnitude}

theorem log_value (h : 0 < m.mantissa) : Int.log 2 m.value = m.mantissa.log2 + m.exponent := by
  obtain ⟨hlow, hhigh⟩ := log2_bounds h
  have htwo : (0 : ℚ) < 2 ^ m.exponent := zpow_pos (by norm_num) _
  apply log_eq
  · rw [zpow_add₀ (by norm_num), value]
    exact mul_le_mul_of_nonneg_right hlow htwo.le
  · rw [add_right_comm, zpow_add₀ (by norm_num), value]
    exact mul_lt_mul_of_pos_right hhigh htwo

theorem value_eq_zero_iff : m.value = 0 ↔ m.mantissa = 0 := by
  have htwo : (2 : ℚ) ^ m.exponent ≠ 0 := (zpow_pos (by norm_num) _).ne'
  rw [value, mul_eq_zero, Nat.cast_eq_zero]
  exact or_iff_left htwo

/-- The exponent of a canonical magnitude is told by its value. -/
theorem Canonical.exponent_eq (h : m.Canonical) : (if m.value = 0 then leastExponent
    else max (Int.log 2 m.value - 52) leastExponent) = m.exponent := by
  obtain ⟨hleast, hlt, hfull⟩ := h
  simp only [mantissas, leastExponent] at *
  by_cases hmantissa : m.mantissa = 0
  · rw [if_pos (value_eq_zero_iff.mpr hmantissa)]
    omega
  · have hhigh : m.mantissa.log2 < 53 := (Nat.log2_lt hmantissa).mpr hlt
    have hlow : 4503599627370496 ≤ m.mantissa → 52 ≤ m.mantissa.log2 := fun hle =>
      (Nat.le_log2 hmantissa).mpr hle
    rw [if_neg (mt value_eq_zero_iff.mp hmantissa), log_value (Nat.pos_of_ne_zero hmantissa)]
    omega

/-- A ratio that has the value of a canonical magnitude is rounded to it. -/
theorem Canonical.ofRatio_eq (h : m.Canonical) (hden : 0 < den)
    (hvalue : (num : ℚ) / den = m.value) : ofRatio num den = m := by
  have hexponent : (ofRatio num den).exponent = m.exponent := by
    rw [exponent_ofRatio hden, hvalue, h.exponent_eq]
  have hscaled : (num : ℚ) / den * 2 ^ (-m.exponent) = m.mantissa / (1 : Nat) := by
    rw [hvalue, value, mul_assoc, ← zpow_add₀ (by norm_num), add_neg_cancel, zpow_zero, mul_one,
      Nat.cast_one, div_one]
  have hmantissa : (ofRatio num den).mantissa = m.mantissa := by
    rw [mantissa_ofRatio, hexponent, roundQuotient_scaled hden Nat.one_pos hscaled,
      roundQuotient_one]
  exact congrArg₂ Magnitude.mk hmantissa hexponent

/-- The bits tell canonical magnitudes apart. -/
theorem Canonical.eq_of_bits (h : m.Canonical) (hother : other.Canonical)
    (hbits : m.bits = other.bits) : m = other := by
  obtain ⟨mantissa, exponent⟩ := m
  obtain ⟨mantissa', exponent'⟩ := other
  obtain ⟨hleast, hlt, hfull⟩ := h
  obtain ⟨hleast', hlt', hfull'⟩ := hother
  simp only [bits, mantissas, leastExponent] at *
  obtain rfl : exponent = exponent' := by omega
  obtain rfl : mantissa = mantissa' := by omega
  rfl

/-- Every natural number of at most 53 binary digits is the value of a canonical magnitude. -/
theorem exists_canonical {n : Nat} (h : n < 2 * mantissas) :
    ∃ m : Magnitude, m.Canonical ∧ m.value = n := by
  by_cases hzero : n = 0
  · subst hzero
    refine ⟨⟨0, leastExponent⟩, ⟨le_refl _, by decide, .inl rfl⟩, ?_⟩
    simp [value]
  · have hlog : n.log2 ≤ 52 := by
      have hbound : n.log2 < 53 := (Nat.log2_lt hzero).mpr h
      omega
    have hlow : 2 ^ n.log2 ≤ n := Nat.log2_self_le hzero
    have hhigh : n < 2 ^ (n.log2 + 1) := Nat.lt_log2_self
    have hscale : 0 < 2 ^ (52 - n.log2) := Nat.two_pow_pos _
    refine ⟨⟨n * 2 ^ (52 - n.log2), (n.log2 : Int) - 52⟩, ⟨?_, ?_, .inr ?_⟩, ?_⟩
    · simp only [leastExponent]
      omega
    · calc n * 2 ^ (52 - n.log2) < 2 ^ (n.log2 + 1) * 2 ^ (52 - n.log2) :=
            Nat.mul_lt_mul_of_pos_right hhigh hscale
        _ = 2 ^ 53 := by
            rw [← Nat.pow_add]
            congr 1
            omega
        _ = 2 * mantissas := by decide
    · calc mantissas = 2 ^ 52 := by decide
        _ = 2 ^ n.log2 * 2 ^ (52 - n.log2) := by
            rw [← Nat.pow_add]
            congr 1
            omega
        _ ≤ n * 2 ^ (52 - n.log2) := Nat.mul_le_mul_right _ hlow
    · rw [value]
      push_cast
      rw [← zpow_natCast, mul_assoc, ← zpow_add₀ (by norm_num), Nat.cast_sub hlog]
      simp

/-! ## Doubles -/

variable {bits : UInt64}

/-- What the bits of a double say is canonical. -/
theorem canonical_of_ofBits? (h : ofBits? bits = some m) : m.Canonical := by
  rw [ofBits?] at h
  split at h
  next => cases h
  next hfinite =>
    split at h
    next =>
      cases h
      refine ⟨le_refl _, ?_, .inl rfl⟩
      simp only [mantissas]
      omega
    next =>
      cases h
      refine ⟨?_, ?_, .inr ?_⟩
      all_goals
        simp only [mantissas, leastExponent] at *
        omega

/-- A magnitude has the bits that it was made of, the sign apart. -/
theorem bits_of_ofBits? (h : ofBits? bits = some m) :
    m.bits = bits.toNat % (2048 * mantissas) ∧ m.bits < infinityBits := by
  rw [ofBits?] at h
  split at h
  next => cases h
  next hfinite =>
    split at h
    all_goals
      cases h
      simp only [Magnitude.bits, mantissas, leastExponent, infinityBits] at *
      omega

/-- A magnitude that is a natural number has its value. -/
theorem value_of_toNat? {n : Nat} (h : m.toNat? = some n) : m.value = n := by
  obtain ⟨mantissa, exponent⟩ := m
  rw [toNat?] at h
  cases exponent with
  | ofNat k =>
      obtain rfl : mantissa <<< k = n := Option.some.inj h
      rw [value, Nat.shiftLeft_eq, Int.ofNat_eq_natCast, zpow_natCast]
      push_cast
      rfl
  | negSucc k =>
      dsimp only at h
      split at h
      next heq =>
        obtain rfl : mantissa >>> (k + 1) = n := Option.some.inj h
        have hmantissa : (mantissa : ℚ) = (mantissa >>> (k + 1) : Nat) * 2 ^ (k + 1) := by
          rw [Nat.shiftLeft_eq] at heq
          exact_mod_cast heq.symm
        rw [value, zpow_negSucc]
        dsimp only
        rw [hmantissa, mul_assoc, mul_inv_cancel₀ (by positivity), mul_one]
      next => cases h

end Magnitude

namespace Decimal

/-! ## Decimals -/

/-- The number that the decimal stands for. -/
def value (d : Decimal) : ℚ :=
  d.coefficient * 10 ^ d.exponent

variable {d other : Decimal} {m : Magnitude}

/-- A decimal is read as a ratio of its value. -/
theorem exists_ofRatio (d : Decimal) : ∃ num den : Nat, 0 < den ∧ (num : ℚ) / den = d.value ∧
    d.magnitude = .ofRatio num den := by
  obtain ⟨coefficient, exponent⟩ := d
  cases exponent with
  | ofNat n =>
      refine ⟨coefficient * Nat.pow 10 n, 1, Nat.one_pos, ?_, rfl⟩
      rw [value, Int.ofNat_eq_natCast, zpow_natCast, Nat.cast_one, div_one, Nat.pow_eq]
      push_cast
      rfl
  | negSucc n =>
      refine ⟨coefficient, Nat.pow 10 (n + 1), Nat.pow_pos (by decide), ?_, rfl⟩
      rw [value, zpow_negSucc, Nat.pow_eq, div_eq_mul_inv]
      push_cast
      rfl

/-- Decimals of one value are read alike. -/
theorem magnitude_congr (h : d.value = other.value) : d.magnitude = other.magnitude := by
  obtain ⟨num, den, hden, hvalue, hd⟩ := d.exists_ofRatio
  obtain ⟨num', den', hden', hvalue', hother⟩ := other.exists_ofRatio
  rw [hd, hother]
  apply Magnitude.ofRatio_congr hden hden'
  rw [hvalue, hvalue', h]

/-- A decimal that has the value of a canonical magnitude is read as it. -/
theorem magnitude_eq (hm : m.Canonical) (h : d.value = m.value) : d.magnitude = m := by
  obtain ⟨num, den, hden, hvalue, hd⟩ := d.exists_ofRatio
  rw [hd]
  exact hm.ofRatio_eq hden (hvalue.trans h)

/-- A decimal that is a natural number of at most 53 binary digits is not read as the bits of
any other value. -/
theorem value_eq_of_bits {n : Nat} (hn : n < 2 * Magnitude.mantissas) (hd : d.value = n)
    (hm : m.Canonical) (hbits : d.magnitude.bits = m.bits) : m.value = n := by
  obtain ⟨whole, hwhole, hvalue⟩ := Magnitude.exists_canonical hn
  rw [magnitude_eq hwhole (hd.trans hvalue.symm)] at hbits
  rw [← hwhole.eq_of_bits hm hbits, hvalue]

/-- Writing a magnitude as a decimal keeps its value. -/
theorem value_toDecimal (m : Magnitude) : m.toDecimal.value = m.value := by
  obtain ⟨mantissa, exponent⟩ := m
  rw [Magnitude.toDecimal]
  dsimp only
  split
  next h =>
    subst h
    simp [value, Magnitude.value]
  next =>
    cases exponent with
    | ofNat n =>
        simp [value, Magnitude.value, Nat.shiftLeft_eq]
    | negSucc n =>
        have hten : (10 : ℚ) ^ (n + 1) = 5 ^ (n + 1) * 2 ^ (n + 1) := by
          rw [← mul_pow]
          norm_num
        rw [value, Magnitude.value, zpow_negSucc, zpow_negSucc, hten]
        dsimp only
        rw [Nat.pow_eq]
        push_cast
        rw [mul_inv, mul_assoc, mul_inv_cancel_left₀ (by positivity)]

end Decimal

end LoxLang
