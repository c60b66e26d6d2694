import Formulary.Number.Shortest
import Formulary.Proofs.Number.Rounding

/-!
# Decimals of doubles

Trimming a decimal keeps its value and leaves one form of each, so a decimal is rounded by its value
alone. The exact value of a double and its shortest decimal are rounded to that double.
-/

namespace Formulary.Number

namespace Decimal

/-! ## Trimming -/

/-- The value of a decimal. -/
def value (decimal : Decimal) : ℚ :=
  decimal.coefficient * 10 ^ decimal.exponent

theorem trim_value (decimal : Decimal) : decimal.trim.value = decimal.value := by
  fun_induction trim decimal with
  | case1 decimal zero => simp [value, zero]
  | case2 decimal nonzero divisible inductionHypothesis =>
    have product : decimal.coefficient = decimal.coefficient / 10 * 10 :=
      (Nat.div_mul_cancel (Nat.dvd_of_mod_eq_zero divisible)).symm
    rw [inductionHypothesis]
    simp only [value]
    rw [product, Nat.mul_div_cancel _ (by decide), zpow_add_one₀ (by norm_num)]
    push_cast
    ring
  | case3 => rfl

theorem trim_trim (decimal : Decimal) : decimal.trim.trim = decimal.trim := by
  fun_induction trim decimal with
  | case1 => simp [trim]
  | case2 _ _ _ inductionHypothesis => exact inductionHypothesis
  | case3 decimal nonzero indivisible => rw [trim, if_neg nonzero, if_neg indivisible]

/-- Zeros at the end of the coefficient may stand in the exponent. -/
theorem trim_mul_pow (coefficient zeros : Nat) (exponent : Int) :
    trim ⟨coefficient * 10 ^ zeros, exponent⟩ = trim ⟨coefficient, exponent + zeros⟩ := by
  induction zeros generalizing exponent with
  | zero => simp
  | succ zeros inductionHypothesis =>
    by_cases zero : coefficient = 0
    · simp [zero, trim]
    · have nonzero : coefficient * 10 ^ (zeros + 1) ≠ 0 := by positivity
      have divided : coefficient * 10 ^ (zeros + 1) / 10 = coefficient * 10 ^ zeros := by
        rw [pow_succ, ← Nat.mul_assoc, Nat.mul_div_cancel _ (by decide)]
      have divisible : coefficient * 10 ^ (zeros + 1) % 10 = 0 := by
        rw [pow_succ, ← Nat.mul_assoc, Nat.mul_mod_left]
      rw [trim, if_neg nonzero, if_pos divisible]
      simp only [divided]
      rw [inductionHypothesis]
      congr 2
      push_cast
      ring

@[simp]
theorem nearestBits_trim (decimal : Decimal) : decimal.trim.nearestBits = decimal.nearestBits := by
  simp only [nearestBits, trim_trim]

/-- No decimal is rounded beyond infinity. -/
theorem nearestBits_le (decimal : Decimal) : decimal.nearestBits ≤ infinityBits := by
  have rounded : ∀ numerator denominator,
      Number.nearestBits numerator denominator ≤ infinityBits := by
    intro numerator denominator
    rw [Number.nearestBits]
    split
    · exact Nat.zero_le _
    · exact Nat.min_le_right _ _
  simp only [nearestBits]
  split
  · exact Nat.zero_le _
  split
  · exact Nat.le_refl _
  split
  · exact Nat.zero_le _
  split <;> exact rounded _ _

/-! ## Decimals with the value of a double -/

theorem two_zpow_le_ten_zpow {power : Int} (nonnegative : 0 ≤ power) :
    (2 : ℚ) ^ (3 * power) ≤ 10 ^ power := by
  rw [zpow_mul]
  exact zpow_le_zpow_left₀ nonnegative (by norm_num) (by norm_num)

theorem ten_zpow_le_two_zpow {power : Int} (nonpositive : power ≤ 0) :
    (10 : ℚ) ^ power ≤ 2 ^ (3 * power) := by
  have inverted := two_zpow_le_ten_zpow (Int.neg_nonneg.mpr nonpositive)
  rw [mul_neg, zpow_neg, zpow_neg] at inverted
  exact (inv_le_inv₀ (by positivity) (by positivity)).mp inverted

variable {significand bits : Nat} {exponent : Int} {decimal : Decimal}

theorem coefficient_pos_of_value (nonzero : significand ≠ 0)
    (same : decimal.value = significand * 2 ^ exponent) : 0 < decimal.coefficient := by
  rcases Nat.eq_zero_or_pos decimal.coefficient with zero | positive
  · have : (0 : ℚ) < significand * 2 ^ exponent := by positivity
    simp [← same, value, zero] at this
  · exact positive

/-- No double is so large that its decimal has hundreds of zeros at the end. -/
theorem exponent_le_of_value (scaled : Scaled significand exponent bits) (nonzero : significand ≠ 0)
    (same : decimal.value = significand * 2 ^ exponent) : decimal.exponent ≤ 400 := by
  by_contra large
  have positive : (1 : ℚ) ≤ decimal.coefficient := by
    exact_mod_cast coefficient_pos_of_value nonzero same
  have small : (significand : ℚ) < 2 ^ (53 : ℤ) := by
    exact_mod_cast scaled.significand_lt
  have chain : (2 : ℚ) ^ (3 * decimal.exponent) < 2 ^ (53 + exponent) :=
    calc (2 : ℚ) ^ (3 * decimal.exponent)
        ≤ 10 ^ decimal.exponent := two_zpow_le_ten_zpow (by omega)
      _ ≤ decimal.coefficient * 10 ^ decimal.exponent :=
          le_mul_of_one_le_left (by positivity) positive
      _ = significand * 2 ^ exponent := same
      _ < 2 ^ (53 : ℤ) * 2 ^ exponent := by gcongr
      _ = 2 ^ (53 + exponent) := (zpow_add₀ two_ne_zero _ _).symm
  have := (zpow_lt_zpow_iff_right₀ one_lt_two).mp chain
  have := scaled.highest
  omega

/-- No double is so small that its decimal has hundreds of zeros before its digits. -/
theorem le_exponent_of_value (scaled : Scaled significand exponent bits) (nonzero : significand ≠ 0)
    (same : decimal.value = significand * 2 ^ exponent) :
    -(400 + (decimal.coefficient.log2 : Int)) ≤ decimal.exponent := by
  by_contra small
  have positive : (1 : ℚ) ≤ significand := by
    exact_mod_cast Nat.pos_of_ne_zero nonzero
  have chain : (2 : ℚ) ^ exponent < 2 ^ (decimal.coefficient.log2 + 1 + 3 * decimal.exponent) :=
    calc (2 : ℚ) ^ exponent
        ≤ significand * 2 ^ exponent := le_mul_of_one_le_left (by positivity) positive
      _ = decimal.coefficient * 10 ^ decimal.exponent := same.symm
      _ ≤ decimal.coefficient * 2 ^ (3 * decimal.exponent) := by
          gcongr
          exact ten_zpow_le_two_zpow (by omega)
      _ < 2 ^ (decimal.coefficient.log2 + 1 : ℤ) * 2 ^ (3 * decimal.exponent) := by
          gcongr
          exact lt_zpow_log2 _
      _ = 2 ^ (decimal.coefficient.log2 + 1 + 3 * decimal.exponent) :=
          (zpow_add₀ two_ne_zero _ _).symm
  have := (zpow_lt_zpow_iff_right₀ one_lt_two).mp chain
  have := scaled.lowest
  omega

/-- A decimal with the value of a double is rounded to this double. -/
theorem nearestBits_of_value (scaled : Scaled significand exponent bits)
    (nonzero : significand ≠ 0) (same : decimal.value = significand * 2 ^ exponent) :
    decimal.nearestBits = bits := by
  have trimmed : decimal.trim.value = significand * 2 ^ exponent := by rw [trim_value, same]
  have coefficientPositive := coefficient_pos_of_value nonzero trimmed
  have upper := exponent_le_of_value scaled nonzero trimmed
  have lower := le_exponent_of_value scaled nonzero trimmed
  simp only [nearestBits]
  rw [if_neg coefficientPositive.ne', if_neg (Int.not_lt.mpr upper), if_neg (Int.not_lt.mpr lower)]
  rw [value] at trimmed
  split
  · rename_i nonnegative
    apply Number.nearestBits_of_value scaled nonzero Nat.one_pos
    rw [← trimmed]
    lift decimal.trim.exponent to ℕ using nonnegative with power
    simp
  · rename_i negative
    apply Number.nearestBits_of_value scaled nonzero (Nat.pow_pos (by decide))
    rw [← trimmed]
    obtain ⟨power, power_eq⟩ : ∃ power : Nat, decimal.trim.exponent = -power :=
      ⟨(-decimal.trim.exponent).toNat, by omega⟩
    simp [power_eq, div_eq_mul_inv]

end Decimal

/-! ## The exact value and the shortest decimal -/

variable {significand bits : Nat} {exponent : Int}

theorem exactDecimal_value :
    (exactDecimal significand exponent).value = significand * 2 ^ exponent := by
  rw [exactDecimal]
  split
  · rename_i nonnegative
    lift exponent to ℕ using nonnegative
    simp [Decimal.value]
  · rename_i negative
    obtain ⟨power, rfl⟩ : ∃ power : Nat, exponent = -power := ⟨(-exponent).toNat, by omega⟩
    have ten : (10 : ℚ) = 5 * 2 := by norm_num
    simp only [Decimal.value, neg_neg, Int.toNat_natCast, Nat.pow_eq, Nat.cast_mul, Nat.cast_pow,
      Nat.cast_ofNat, zpow_neg, zpow_natCast, ten, mul_pow]
    field_simp

/-- The shortest decimal of a double is rounded to this double. -/
theorem nearestBits_shortest (tie : Tie) (scaled : Scaled significand exponent bits)
    (nonzero : significand ≠ 0) : (shortest tie significand exponent).nearestBits = bits := by
  have exact_eq : (exactDecimal significand exponent).nearestBits = bits :=
    Decimal.nearestBits_of_value scaled nonzero exactDecimal_value
  simp only [shortest, shortestOf, Decimal.nearestBits_trim, exact_eq]
  generalize search : List.findSome? _ _ = found
  cases found with
  | none => exact exact_eq
  | some decimal =>
    rcases List.exists_of_findSome?_eq_some search with ⟨kept, -, hit⟩
    have readsBack := List.find?_some hit
    exact beq_iff_eq.mp readsBack

end Formulary.Number
