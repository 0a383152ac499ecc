/-
# Digits of decimals

A decimal that is written without an exponent is read back with its value. The digits up to
the last one that is not a zero and the power of ten of the first one say all that there is
to say; where the point is put among them, and the zeros that fill the places, follow.

So a decimal is written by its value alone, and a natural number is written as its digits.
-/

import LoxLang.Proofs.Number.Rounding
import LoxLang.Proofs.Token.Spelling
import Mathlib.Data.List.DropRight

namespace LoxLang

open Spelling

namespace Decimal

/-! ## Runs of digits -/

variable {digits whole part : List Char}

theorem natOfDigits_append_zeros (digits : List Char) (count : Nat) :
    natOfDigits (digits ++ List.replicate count '0') = natOfDigits digits * 10 ^ count := by
  have h := Nat.ofDigitChars_append (b := 10) (l := digits) (m := List.replicate count '0') 0
  rw [Nat.ofDigitChars_replicate_zero, Nat.mul_comm] at h
  exact h

theorem natOfDigits_zeros_append (count : Nat) (digits : List Char) :
    natOfDigits (List.replicate count '0' ++ digits) = natOfDigits digits := by
  have h := Nat.ofDigitChars_append (b := 10) (l := List.replicate count '0') (m := digits) 0
  rw [Nat.ofDigitChars_replicate_zero, Nat.mul_zero] at h
  exact h

theorem natOfDigits_toDigits (n : Nat) : natOfDigits (Nat.toDigits 10 n) = n :=
  Nat.ofDigitChars_ten_toDigits

theorem digit_of_mem_toDigits {n : Nat} {c : Char} (h : c ∈ Nat.toDigits 10 n) : Digit c :=
  (isDigit_iff c).mp (Nat.isDigit_of_mem_toDigits (by decide) (by decide) h)

theorem digit_of_mem_zeros {count : Nat} {c : Char} (h : c ∈ List.replicate count '0') :
    Digit c := by
  rw [List.eq_of_mem_replicate h]
  exact ⟨by decide, by decide⟩

/-- A positive number times a power of ten has the same digits and then zeros. -/
theorem toDigits_mul_pow {n : Nat} (hn : 0 < n) (count : Nat) :
    Nat.toDigits 10 (n * 10 ^ count) = Nat.toDigits 10 n ++ List.replicate count '0' := by
  induction count with
  | zero => simp
  | succ count ih =>
      have hpos : 0 < n * 10 ^ count := Nat.mul_pos hn (Nat.pow_pos (by decide))
      have hlast := Nat.toDigits_append_toDigits (b := 10) (d := 0) (by decide) hpos (by decide)
      rw [List.replicate_succ', ← List.append_assoc, ← ih, Nat.pow_succ, ← Nat.mul_assoc,
        Nat.mul_comm _ 10]
      exact hlast.symm

/-! ## Reading -/

theorem ofDigits_whole (hwhole : ∀ c ∈ whole, Digit c) :
    ofDigits whole = ⟨natOfDigits whole, 0⟩ := by
  have hall : ∀ c ∈ whole, c.isDigit = true := fun c hc => (isDigit_iff c).mpr (hwhole c hc)
  rw [ofDigits, List.takeWhile_eq_self_iff.mpr hall, List.dropWhile_eq_nil_iff.mpr hall]
  simp

theorem ofDigits_point (hwhole : ∀ c ∈ whole, Digit c) :
    ofDigits (whole ++ '.' :: part) = ⟨natOfDigits (whole ++ part), -part.length⟩ := by
  have hall : ∀ c ∈ whole, c.isDigit = true := fun c hc => (isDigit_iff c).mpr (hwhole c hc)
  rw [ofDigits, List.takeWhile_append_of_pos hall, List.dropWhile_append_of_pos hall]
  simp

theorem whole_read (h : Digits whole) :
    Lexeme .number whole ∧ (ofDigits whole).value = natOfDigits whole := by
  refine ⟨.whole h, ?_⟩
  rw [ofDigits_whole h.2, value, zpow_zero, mul_one]

theorem point_read (hwhole : Digits whole) (hpart : Digits part) :
    Lexeme .number (whole ++ '.' :: part) ∧ (ofDigits (whole ++ '.' :: part)).value =
      natOfDigits (whole ++ part) * 10 ^ (-part.length : Int) := by
  refine ⟨.fractional hwhole hpart, ?_⟩
  rw [ofDigits_point hwhole.2, value]

/-! ## Placing the point -/

section

variable {n : Nat}

/-- Where the point is after all digits, zeros come before it. -/
theorem placePoint_after (hdigits : ∀ c ∈ digits, Digit c) (hle : digits.length ≤ n + 1) :
    Lexeme .number (placePoint digits n) ∧ (ofDigits (placePoint digits n)).value =
      natOfDigits digits * 10 ^ ((n : Int) + 1 - digits.length) := by
  have hplaced : placePoint digits n =
      digits ++ List.replicate (n + 1 - digits.length) '0' := if_pos hle
  have htext : Digits (digits ++ List.replicate (n + 1 - digits.length) '0') := by
    refine ⟨fun hnil => ?_, fun c hc => ?_⟩
    · have hlength := congrArg List.length hnil
      simp only [List.length_append, List.length_replicate, List.length_nil] at hlength
      omega
    · exact (List.mem_append.mp hc).elim (hdigits c) digit_of_mem_zeros
  have hpower : (n : Int) + 1 - digits.length = (n + 1 - digits.length : Nat) := by omega
  obtain ⟨hlexeme, hvalue⟩ := whole_read htext
  rw [hplaced]
  refine ⟨hlexeme, ?_⟩
  rw [hvalue, natOfDigits_append_zeros, hpower, zpow_natCast]
  push_cast
  rfl

/-- Where it is among the digits, it parts them. -/
theorem placePoint_among (hdigits : ∀ c ∈ digits, Digit c) (hlt : n + 1 < digits.length) :
    Lexeme .number (placePoint digits n) ∧ (ofDigits (placePoint digits n)).value =
      natOfDigits digits * 10 ^ ((n : Int) + 1 - digits.length) := by
  have hplaced : placePoint digits n = digits.take (n + 1) ++ '.' :: digits.drop (n + 1) :=
    if_neg (Nat.not_le_of_lt hlt)
  have hwhole : Digits (digits.take (n + 1)) := by
    refine ⟨fun hnil => ?_, fun c hc => hdigits c (List.mem_of_mem_take hc)⟩
    have hlength := congrArg List.length hnil
    simp only [List.length_take, List.length_nil] at hlength
    omega
  have hpart : Digits (digits.drop (n + 1)) := by
    refine ⟨fun hnil => ?_, fun c hc => hdigits c (List.mem_of_mem_drop hc)⟩
    have hlength := congrArg List.length hnil
    simp only [List.length_drop, List.length_nil] at hlength
    omega
  have hpower : (n : Int) + 1 - digits.length = -((digits.drop (n + 1)).length : Nat) := by
    rw [List.length_drop]
    omega
  rw [hplaced, hpower]
  have hread := point_read hwhole hpart
  rwa [List.take_append_drop] at hread

/-- Where it is before all digits, zeros come after it. -/
theorem placePoint_before (hdigits : ∀ c ∈ digits, Digit c) (hne : digits ≠ []) :
    Lexeme .number (placePoint digits (.negSucc n)) ∧
      (ofDigits (placePoint digits (.negSucc n))).value =
        natOfDigits digits * 10 ^ (Int.negSucc n + 1 - digits.length) := by
  have hwhole : Digits ['0'] :=
    ⟨List.cons_ne_nil _ _, List.forall_mem_singleton.mpr ⟨by decide, by decide⟩⟩
  have hpart : Digits (List.replicate n '0' ++ digits) :=
    ⟨fun hnil => hne (List.append_eq_nil_iff.mp hnil).2,
      fun c hc => (List.mem_append.mp hc).elim digit_of_mem_zeros (hdigits c)⟩
  have hpower : (Int.negSucc n + 1 - digits.length : Int) =
      -((List.replicate n '0' ++ digits).length : Nat) := by
    rw [List.length_append, List.length_replicate]
    omega
  have hread := point_read hwhole hpart
  rw [List.singleton_append, List.singleton_append] at hread
  rw [hpower, ← natOfDigits_zeros_append (n + 1) digits]
  exact hread

end

/-- Digits with a point placed among them are a number, and are read as what the place of the
point says. -/
theorem placePoint_read {order : Int} (hdigits : ∀ c ∈ digits, Digit c)
    (hplace : digits = [] → 0 ≤ order) :
    Lexeme .number (placePoint digits order) ∧
      (ofDigits (placePoint digits order)).value =
        natOfDigits digits * 10 ^ (order + 1 - digits.length) := by
  cases order with
  | ofNat n =>
      rcases Nat.lt_or_ge (n + 1) digits.length with hlt | hle
      · exact placePoint_among hdigits hlt
      · exact placePoint_after hdigits hle
  | negSucc n =>
      apply placePoint_before hdigits
      intro hnil
      exact absurd (hplace hnil) (by omega)

/-! ## Writing -/

variable {d : Decimal}

theorem digits_eq (d : Decimal) : d.digits = d.allDigits.rdropWhile (· == '0') :=
  rfl

theorem digit_of_mem_digits {c : Char} (h : c ∈ d.digits) : Digit c :=
  digit_of_mem_toDigits ((List.rdropWhile_prefix _ _).subset h)

theorem length_digits_le (d : Decimal) : d.digits.length ≤ d.allDigits.length :=
  (List.rdropWhile_prefix _ _).length_le

theorem rdropWhile_append_zeros (digits : List Char) (count : Nat) :
    (digits ++ List.replicate count '0').rdropWhile (· == '0') =
      digits.rdropWhile (· == '0') := by
  induction count with
  | zero => simp
  | succ count ih =>
      rw [List.replicate_succ', ← List.append_assoc, List.rdropWhile_concat_pos _ _ _ (by simp), ih]

/-- No more than zeros are left out of the digits. -/
theorem digits_append_zeros (d : Decimal) :
    d.digits ++ List.replicate (d.allDigits.length - d.digits.length) '0' = d.allDigits := by
  have hsplit : d.digits ++ d.allDigits.rtakeWhile (· == '0') = d.allDigits :=
    List.rdropWhile_append_rtakeWhile
  have hzeros : d.allDigits.rtakeWhile (· == '0') =
      List.replicate (d.allDigits.rtakeWhile (· == '0')).length '0' := by
    apply List.eq_replicate_of_mem
    intro c hc
    simpa using List.mem_rtakeWhile_imp hc
  have hlength := congrArg List.length hsplit
  rw [List.length_append] at hlength
  rw [show d.allDigits.length - d.digits.length =
    (d.allDigits.rtakeWhile (· == '0')).length by omega, ← hzeros, hsplit]

/-- The digits and the power of ten of the first carry the value. -/
theorem value_eq (d : Decimal) :
    d.value = natOfDigits d.digits * 10 ^ (d.order + 1 - d.digits.length) := by
  have hdigits := natOfDigits_append_zeros d.digits (d.allDigits.length - d.digits.length)
  rw [digits_append_zeros, allDigits, natOfDigits_toDigits, ← allDigits] at hdigits
  have hpower : d.order + 1 - d.digits.length =
      ((d.allDigits.length - d.digits.length : Nat) : Int) + d.exponent := by
    have hlength := d.length_digits_le
    rw [order]
    omega
  rw [value, hdigits, hpower, zpow_add₀ (by norm_num), zpow_natCast, ← mul_assoc]
  push_cast
  rfl

/-- A decimal that is written without an exponent is a number of the source, and is read with
its value. That of a zero must not be a fraction. -/
theorem positional_read (h : d.coefficient = 0 → 0 ≤ d.exponent) :
    Lexeme .number d.positional.toList ∧ (ofDigits d.positional.toList).value = d.value := by
  rw [positional, String.toList_ofList, d.value_eq]
  apply placePoint_read fun c hc => digit_of_mem_digits hc
  intro hnil
  have hzero : d.coefficient = 0 := by
    have hdigits := natOfDigits_append_zeros d.digits (d.allDigits.length - d.digits.length)
    rw [digits_append_zeros, allDigits, natOfDigits_toDigits, hnil] at hdigits
    simpa [natOfDigits] using hdigits
  rw [order, allDigits, hzero, Nat.toDigits_zero]
  have hexponent := h hzero
  simp only [List.length_singleton]
  omega

/-- Zeros at the end of the coefficient may as well be in the exponent. -/
theorem positional_mul_pow {coefficient : Nat} (h : 0 < coefficient) (count : Nat)
    (exponent : Int) : positional ⟨coefficient * 10 ^ count, exponent⟩ =
      positional ⟨coefficient, exponent + count⟩ := by
  have hall : allDigits ⟨coefficient * 10 ^ count, exponent⟩ =
      allDigits ⟨coefficient, exponent + count⟩ ++ List.replicate count '0' :=
    toDigits_mul_pow h count
  have hdigits : digits ⟨coefficient * 10 ^ count, exponent⟩ =
      digits ⟨coefficient, exponent + count⟩ := by
    rw [digits_eq, hall, rdropWhile_append_zeros, digits_eq]
  have horder : order ⟨coefficient * 10 ^ count, exponent⟩ =
      order ⟨coefficient, exponent + count⟩ := by
    rw [order, order, hall, List.length_append, List.length_replicate]
    dsimp only
    omega
  rw [positional, positional, hdigits, horder]

/-- A natural number is written as its digits. -/
theorem positional_natural (n : Nat) : positional ⟨n, 0⟩ = toString n := by
  have hlength : 0 < (allDigits ⟨n, 0⟩).length := Nat.length_toDigits_pos
  have horder : order ⟨n, 0⟩ = Int.ofNat ((allDigits ⟨n, 0⟩).length - 1) := by
    rw [order, Int.ofNat_eq_natCast]
    dsimp only
    omega
  have hle := length_digits_le ⟨n, 0⟩
  rw [positional, horder, placePoint, if_pos (by omega), Nat.sub_add_cancel hlength,
    digits_append_zeros]
  exact Nat.toString_eq_ofList_toDigits.symm

/-- A decimal that has the value of a natural number is written as its digits. The exponent of
a zero must be zero. -/
theorem positional_of_value {n : Nat} (h : d.value = n)
    (hzero : d.coefficient = 0 → d.exponent = 0) : d.positional = toString n := by
  obtain ⟨coefficient, exponent⟩ := d
  have hten (count : Nat) : (10 : ℚ) ^ count ≠ 0 := by positivity
  cases exponent with
  | ofNat count =>
      rw [value, Int.ofNat_eq_natCast, zpow_natCast] at h
      obtain rfl : coefficient * 10 ^ count = n := by exact_mod_cast h
      rcases Nat.eq_zero_or_pos coefficient with rfl | hpos
      · rw [show Int.ofNat count = 0 from hzero rfl, Nat.zero_mul, positional_natural]
      · rw [← positional_natural, positional_mul_pow hpos, Int.zero_add]
        rfl
  | negSucc count =>
      have hpos : 0 < coefficient := by
        apply Nat.pos_of_ne_zero
        intro hnone
        cases hzero hnone
      rw [value, zpow_negSucc, ← div_eq_mul_inv, div_eq_iff (hten _)] at h
      obtain rfl : coefficient = n * 10 ^ (count + 1) := by exact_mod_cast h
      have hfactor : 0 < n := Nat.pos_of_mul_pos_right hpos
      have hexponent : Int.negSucc count + (count + 1 : Nat) = 0 := by omega
      rw [positional_mul_pow hfactor, hexponent, positional_natural]

end Decimal

end LoxLang
