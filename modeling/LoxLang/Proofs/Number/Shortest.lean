/-
# The shortest digits

The decimal that is picked among the neighbours of a given one is accepted if the given one
is, so what is written of a magnitude reads back as it.

Of a natural number below `Number.wholeBound` all digits are written. The neighbours of the
number that have no fraction are natural numbers of at most 53 binary digits, and those are
told apart by the magnitudes they are read as. On a grid that divides one the number lies
itself, and it is its own neighbour below.
-/

import LoxLang.Number.Text
import LoxLang.Proofs.Number.Digits

namespace LoxLang

namespace Decimal

/-! ## Neighbours -/

variable {accept : Decimal → Bool} {tie : Tie} {d r : Decimal} {dropped : Nat}

/-- A neighbour is accepted, and is the one below or the one above. -/
theorem neighbour?_eq_some (h : d.neighbour? accept tie dropped = some r) :
    accept r = true ∧ r.exponent = d.exponent + dropped ∧
      (r.coefficient = d.coefficient / 10 ^ dropped ∨
        r.coefficient = d.coefficient / 10 ^ dropped + 1) := by
  simp only [neighbour?, Nat.pow_eq] at h
  split at h
  next hbelow habove =>
    obtain rfl := Option.some.inj h
    split
    · exact ⟨habove, rfl, .inr rfl⟩
    · exact ⟨hbelow, rfl, .inl rfl⟩
  next hbelow _ =>
    obtain rfl := Option.some.inj h
    exact ⟨hbelow, rfl, .inl rfl⟩
  next _ habove =>
    obtain rfl := Option.some.inj h
    exact ⟨habove, rfl, .inr rfl⟩
  next => cases h

/-- A decimal that lies on the grid is its own neighbour if it is accepted. -/
theorem neighbour?_of_dvd (hdvd : 10 ^ dropped ∣ d.coefficient)
    (h : accept ⟨d.coefficient / 10 ^ dropped, d.exponent + dropped⟩ = true) :
    d.neighbour? accept tie dropped =
      some ⟨d.coefficient / 10 ^ dropped, d.exponent + dropped⟩ := by
  have hnearer : tie.prefersAbove (d.coefficient / 10 ^ dropped) 0 (10 ^ dropped) = false := by
    have hcompare : compare (2 * 0) (10 ^ dropped) = .lt :=
      compare_lt_iff_lt.mpr (Nat.pow_pos (by decide))
    unfold Tie.prefersAbove
    rw [hcompare]
  simp only [neighbour?, Nat.pow_eq]
  rw [Nat.mod_eq_zero_of_dvd hdvd, hnearer, h]
  split
  next => rfl
  next => rfl
  next hbelow _ => cases hbelow
  next hbelow _ => cases hbelow

/-- The shortest decimal is the given one, or its neighbour on a grid that keeps a digit. -/
theorem shortest_cases (accept : Decimal → Bool) (tie : Tie) (d : Decimal) :
    d.shortest accept tie = d ∨ ∃ dropped < d.allDigits.length,
      d.neighbour? accept tie dropped = some (d.shortest accept tie) := by
  rw [shortest]
  cases hfound : (List.range maxDigits).findSome? fun kept =>
      d.neighbour? accept tie (d.allDigits.length - (kept + 1)) with
  | none => exact .inl rfl
  | some r =>
      obtain ⟨kept, -, hkept⟩ := List.exists_of_findSome?_eq_some hfound
      have hlength : 0 < d.allDigits.length := Nat.length_toDigits_pos
      exact .inr ⟨_, by omega, hkept⟩

/-- What keeps a digit of a positive coefficient does not drop all of it. -/
theorem pow_le_coefficient (hpos : 0 < d.coefficient) (h : dropped < d.allDigits.length) :
    10 ^ dropped ≤ d.coefficient := by
  rcases Nat.eq_zero_or_pos dropped with rfl | hdropped
  · exact hpos
  · have hshort := Nat.length_toDigits_le_iff (n := d.coefficient) (b := 10) (by decide) hdropped
    rw [allDigits] at h
    omega

/-- The shortest decimal is accepted if the given one is. -/
theorem accept_shortest (h : accept d = true) : accept (d.shortest accept tie) = true := by
  rcases shortest_cases accept tie d with heq | ⟨_, -, hneighbour⟩
  · rw [heq]
    exact h
  · exact (neighbour?_eq_some hneighbour).1

/-- The shortest decimal is zero only where the given one is, and then is that one. -/
theorem shortest_zero (hzero : d.coefficient = 0 → d.exponent = 0)
    (h : (d.shortest accept tie).coefficient = 0) : (d.shortest accept tie).exponent = 0 := by
  rcases shortest_cases accept tie d with heq | ⟨dropped, hdropped, hneighbour⟩
  · rw [heq] at h ⊢
    exact hzero h
  · obtain ⟨-, hexponent, hcoefficient⟩ := neighbour?_eq_some hneighbour
    rcases Nat.eq_zero_or_pos d.coefficient with hnone | hpos
    · rw [allDigits, hnone, Nat.toDigits_zero, List.length_singleton] at hdropped
      rw [hexponent, hzero hnone]
      omega
    · have hquotient : 0 < d.coefficient / 10 ^ dropped :=
        Nat.div_pos (pow_le_coefficient hpos hdropped) (Nat.pow_pos (by decide))
      omega

/-! ## Natural numbers -/

/-- A neighbour of a natural number that has no fraction is a natural number, and at most twice
the number or one. -/
theorem neighbour_natural {n power : Nat} (hvalue : d.value = n)
    (hdropped : dropped < d.allDigits.length) (hzero : d.coefficient = 0 → d.exponent = 0)
    (hpower : d.exponent + dropped = power) :
    (d.coefficient / 10 ^ dropped + 1) * 10 ^ power ≤ 2 * n + 1 := by
  rcases Nat.eq_zero_or_pos d.coefficient with hnone | hpos
  · rw [allDigits, hnone, Nat.toDigits_zero, List.length_singleton] at hdropped
    rw [hzero hnone] at hpower
    obtain rfl : power = 0 := by omega
    rw [hnone, Nat.zero_div]
    omega
  · have hten : 0 < 10 ^ dropped := Nat.pow_pos (by decide)
    have hquotient : 1 ≤ d.coefficient / 10 ^ dropped :=
      Nat.div_pos (pow_le_coefficient hpos hdropped) hten
    -- scaled by what was dropped, the lower neighbour is at most the number
    have hlower : d.coefficient / 10 ^ dropped * 10 ^ power ≤ n := by
      have hscaled : (d.coefficient / 10 ^ dropped * 10 ^ dropped : Nat) * (10 : ℚ) ^ d.exponent ≤
          d.coefficient * 10 ^ d.exponent :=
        mul_le_mul_of_nonneg_right (by exact_mod_cast Nat.div_mul_le_self _ _)
          (zpow_nonneg (by norm_num) _)
      rw [← value, hvalue] at hscaled
      push_cast at hscaled
      rw [mul_assoc, ← zpow_natCast, ← zpow_add₀ (by norm_num), add_comm, hpower,
        zpow_natCast] at hscaled
      exact_mod_cast hscaled
    calc (d.coefficient / 10 ^ dropped + 1) * 10 ^ power
        ≤ (d.coefficient / 10 ^ dropped + d.coefficient / 10 ^ dropped) * 10 ^ power :=
          Nat.mul_le_mul_right _ (Nat.add_le_add_left hquotient _)
      _ ≤ 2 * n + 1 := by
          rw [Nat.add_mul]
          omega

/-- A natural number lies on each grid of fractions. -/
theorem fraction_natural {n power : Nat} (hvalue : d.value = n)
    (hpower : d.exponent + dropped = Int.negSucc power) : 10 ^ dropped ∣ d.coefficient ∧
      value ⟨d.coefficient / 10 ^ dropped, d.exponent + dropped⟩ = n := by
  have hscaled : d.coefficient = n * 10 ^ (power + 1) * 10 ^ dropped := by
    have hexponent : d.exponent = -((power + 1 + dropped : Nat) : Int) := by omega
    rw [value, hexponent, zpow_neg, zpow_natCast, ← div_eq_mul_inv,
      div_eq_iff (by positivity), pow_add, ← mul_assoc] at hvalue
    exact_mod_cast hvalue
  refine ⟨⟨_, hscaled.trans (Nat.mul_comm _ _)⟩, ?_⟩
  rw [value, hpower, zpow_negSucc]
  dsimp only
  rw [hscaled, Nat.mul_div_cancel _ (Nat.pow_pos (by decide))]
  push_cast
  rw [mul_assoc, mul_inv_cancel₀ (by positivity), mul_one]

end Decimal

namespace Number

/-! ## Digits of magnitudes -/

variable {m : Magnitude} {n : Nat}

theorem toDecimal_zero (m : Magnitude) (h : m.toDecimal.coefficient = 0) :
    m.toDecimal.exponent = 0 := by
  obtain ⟨mantissa, exponent⟩ := m
  rw [Magnitude.toDecimal] at h ⊢
  dsimp only at h ⊢
  split at h
  next hnone => rw [if_pos hnone]
  next hsome =>
    rw [if_neg hsome]
    cases exponent with
    | ofNat count => rfl
    | negSucc count =>
        dsimp only at h
        rw [Nat.pow_eq] at h
        exact absurd h (Nat.mul_ne_zero hsome (by positivity))

/-- The digits of a magnitude are read as it. -/
theorem shortest_bits (tie : Tie) (h : m.Canonical) :
    (shortest tie m).magnitude.bits = m.bits := by
  have hself : m.toDecimal.magnitude = m := Decimal.magnitude_eq h (Decimal.value_toDecimal m)
  have haccept := @Decimal.accept_shortest (fun d => d.magnitude.bits == m.bits) tie m.toDecimal
    (by rw [hself, beq_self_eq_true])
  exact eq_of_beq haccept

theorem shortest_zero (tie : Tie) (m : Magnitude) (h : (shortest tie m).coefficient = 0) :
    (shortest tie m).exponent = 0 :=
  Decimal.shortest_zero (toDecimal_zero m) h

/-- A natural number below the bound keeps its value. -/
theorem shortest_value (tie : Tie) (h : m.Canonical) (hvalue : m.value = n)
    (hn : n < wholeBound) : (shortest tie m).value = n := by
  have hsame : m.toDecimal.value = n := (Decimal.value_toDecimal m).trans hvalue
  rcases Decimal.shortest_cases (fun d => d.magnitude.bits == m.bits) tie m.toDecimal
    with heq | ⟨dropped, hdropped, hneighbour⟩
  · rw [shortest, heq, hsame]
  · obtain ⟨-, hexponent, hcoefficient⟩ := Decimal.neighbour?_eq_some hneighbour
    rw [← shortest] at hexponent hcoefficient
    cases hpower : m.toDecimal.exponent + dropped with
    | ofNat power =>
        have hbound := Decimal.neighbour_natural hsame hdropped (toDecimal_zero m) hpower
        have hnatural : (shortest tie m).value =
            ((shortest tie m).coefficient * 10 ^ power : Nat) := by
          rw [Decimal.value, hexponent, hpower, Int.ofNat_eq_natCast, zpow_natCast]
          push_cast
          rfl
        have hle : (shortest tie m).coefficient * 10 ^ power ≤
            (m.toDecimal.coefficient / 10 ^ dropped + 1) * 10 ^ power :=
          Nat.mul_le_mul_right _ (by omega)
        have hsmall : (shortest tie m).coefficient * 10 ^ power < 2 * Magnitude.mantissas := by
          simp only [wholeBound, Magnitude.mantissas] at *
          omega
        rw [hnatural, ← Decimal.value_eq_of_bits hsmall hnatural h (shortest_bits tie h), hvalue]
    | negSucc power =>
        obtain ⟨hdvd, hbelow⟩ := Decimal.fraction_natural hsame hpower
        have hread := Decimal.magnitude_eq h (hbelow.trans hvalue.symm)
        have hitself := @Decimal.neighbour?_of_dvd (fun d => d.magnitude.bits == m.bits) tie
          m.toDecimal dropped hdvd (by rw [hread, beq_self_eq_true])
        rw [hneighbour] at hitself
        rw [shortest, Option.some.inj hitself, hbelow]

/-- A natural number below the bound is written as its digits. -/
theorem shortest_positional (tie : Tie) (h : m.Canonical) (hvalue : m.value = n)
    (hn : n < wholeBound) : (shortest tie m).positional = toString n :=
  Decimal.positional_of_value (shortest_value tie h hvalue hn) (shortest_zero tie m)

end Number

end LoxLang
