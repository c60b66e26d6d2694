import Formulary.Number.Binary64
import Mathlib.Algebra.Order.Field.Power
import Mathlib.Data.Rat.Cast.Order
import Mathlib.Tactic.FieldSimp
import Mathlib.Tactic.Linarith
import Mathlib.Tactic.NormNum
import Mathlib.Tactic.Positivity
import Mathlib.Tactic.Ring

/-!
# Rounding of exact values

A quotient that is the exact value of a double is rounded to this double. So a double is found again
from every fraction that has its value.
-/

namespace Formulary.Number

/-! ## Scaling -/

theorem scaleByPower_pos {denominator : Nat} (numerator : Nat) (exponent : Int)
    (positive : 0 < denominator) : 0 < (scaleByPower numerator denominator exponent).2 := by
  rw [scaleByPower]
  split
  · exact Nat.mul_pos positive (Nat.pow_pos (by decide))
  · exact positive

/-- Scaling divides the value by a power of two. -/
theorem scaleByPower_value {denominator : Nat} (numerator : Nat) (exponent : Int)
    (positive : 0 < denominator) :
    ((scaleByPower numerator denominator exponent).1 : ℚ) /
        (scaleByPower numerator denominator exponent).2 =
      numerator / denominator / 2 ^ exponent := by
  have nonzero : (denominator : ℚ) ≠ 0 := by positivity
  rw [scaleByPower]
  split
  · rename_i nonnegative
    lift exponent to ℕ using nonnegative
    simp only [Int.toNat_natCast, Nat.pow_eq, Nat.cast_mul, Nat.cast_pow, Nat.cast_ofNat,
      zpow_natCast]
    field_simp
  · rename_i negative
    obtain ⟨size, rfl⟩ : ∃ size : Nat, exponent = -size := ⟨(-exponent).toNat, by omega⟩
    simp only [neg_neg, Int.toNat_natCast, Nat.pow_eq, Nat.cast_mul, Nat.cast_pow, Nat.cast_ofNat,
      zpow_neg, zpow_natCast]
    field_simp

/-! ## Significands and exponents of doubles -/

/-- A significand with an exponent as a double has them, and the bit pattern of this double. -/
structure Scaled (significand : Nat) (exponent : Int) (bits : Nat) : Prop where
  significand_lt : significand < 2 * leadingOne
  lowest : -1074 ≤ exponent
  highest : exponent ≤ 971
  normal : leadingOne ≤ significand ∨ exponent = -1074
  bits_eq : bits = (exponent + 1074).toNat * leadingOne + significand

variable {numerator denominator significand bits : Nat} {exponent : Int}

theorem Scaled.bits_lt (scaled : Scaled significand exponent bits) : bits < infinityBits := by
  have small := scaled.significand_lt
  have highest := scaled.highest
  rw [scaled.bits_eq]
  simp only [leadingOne, infinityBits] at *
  omega

theorem Scaled.bits_le (scaled : Scaled significand exponent bits) : bits ≤ infinityBits :=
  Nat.le_of_lt scaled.bits_lt

/-- Only zero has no significand. -/
theorem Scaled.bits_eq_zero_iff (scaled : Scaled significand exponent bits) :
    bits = 0 ↔ significand = 0 := by
  have normal := scaled.normal
  have lowest := scaled.lowest
  rw [scaled.bits_eq]
  simp only [leadingOne] at *
  omega

theorem scaled_of_lt_leadingOne (small : bits < leadingOne) : Scaled bits (-1074) bits where
  significand_lt := by omega
  lowest := by omega
  highest := by omega
  normal := .inr rfl
  bits_eq := by simp

theorem scaled_of_lt_infinityBits (large : bits / leadingOne ≠ 0) (inRange : bits < infinityBits) :
    Scaled (leadingOne + bits % leadingOne) ((bits / leadingOne : Nat) - 1075) bits := by
  simp only [leadingOne, infinityBits] at *
  constructor
  · simp only [leadingOne]
    omega
  · omega
  · omega
  · exact .inl (Nat.le_add_right _ _)
  · simp only [leadingOne]
    omega

/-! ## The exponent of the unit -/

theorem zpow_log2_le {number : Nat} (nonzero : number ≠ 0) :
    (2 : ℚ) ^ (number.log2 : ℤ) ≤ number := by
  rw [zpow_natCast]
  exact_mod_cast Nat.log2_self_le nonzero

theorem lt_zpow_log2 (number : Nat) : (number : ℚ) < 2 ^ (number.log2 + 1 : ℤ) := by
  rw [← Nat.cast_succ, zpow_natCast]
  exact_mod_cast Nat.lt_log2_self

/-- The logarithm of a quotient is the difference of the logarithms, or one less. -/
theorem log2_bounds (positive : 0 < denominator) (nonzero : significand ≠ 0)
    (value : (numerator : ℚ) / denominator = significand * 2 ^ exponent) :
    (significand.log2 : ℤ) + denominator.log2 + exponent ≤ numerator.log2 ∧
      (numerator.log2 : ℤ) ≤ significand.log2 + denominator.log2 + exponent + 1 := by
  have denominatorPositive : (0 : ℚ) < denominator := by positivity
  have product : (numerator : ℚ) = significand * denominator * 2 ^ exponent := by
    rw [div_eq_iff denominatorPositive.ne'] at value
    rw [value]
    ring
  have numeratorNonzero : numerator ≠ 0 := by
    rintro rfl
    have : (0 : ℚ) < significand * denominator * 2 ^ exponent := by positivity
    simp [← product] at this
  constructor
  · have lower : (2 : ℚ) ^ ((significand.log2 : ℤ) + denominator.log2 + exponent) <
        2 ^ (numerator.log2 + 1 : ℤ) :=
      calc (2 : ℚ) ^ ((significand.log2 : ℤ) + denominator.log2 + exponent)
          = 2 ^ (significand.log2 : ℤ) * 2 ^ (denominator.log2 : ℤ) * 2 ^ exponent := by
            rw [zpow_add₀ two_ne_zero, zpow_add₀ two_ne_zero]
        _ ≤ significand * denominator * 2 ^ exponent := by
            gcongr
            · exact zpow_log2_le nonzero
            · exact zpow_log2_le positive.ne'
        _ = numerator := product.symm
        _ < 2 ^ (numerator.log2 + 1 : ℤ) := lt_zpow_log2 numerator
    have := (zpow_lt_zpow_iff_right₀ one_lt_two).mp lower
    omega
  · have upper : (2 : ℚ) ^ (numerator.log2 : ℤ) <
        2 ^ ((significand.log2 : ℤ) + 1 + (denominator.log2 + 1) + exponent) :=
      calc (2 : ℚ) ^ (numerator.log2 : ℤ)
          ≤ numerator := zpow_log2_le numeratorNonzero
        _ = significand * denominator * 2 ^ exponent := product
        _ < 2 ^ (significand.log2 + 1 : ℤ) * 2 ^ (denominator.log2 + 1 : ℤ) * 2 ^ exponent := by
            gcongr
            · exact lt_zpow_log2 significand
            · exact lt_zpow_log2 denominator
        _ = 2 ^ ((significand.log2 : ℤ) + 1 + (denominator.log2 + 1) + exponent) := by
            rw [← zpow_add₀ two_ne_zero, ← zpow_add₀ two_ne_zero]
    have := (zpow_lt_zpow_iff_right₀ one_lt_two).mp upper
    omega

/-- The scaled quotient is the significand at its exponent. -/
theorem scaleByPower_eq_of_value (positive : 0 < denominator)
    (value : (numerator : ℚ) / denominator = significand * 2 ^ exponent) :
    (scaleByPower numerator denominator exponent).1 =
      significand * (scaleByPower numerator denominator exponent).2 := by
  have divisorPositive : (0 : ℚ) < (scaleByPower numerator denominator exponent).2 := by
    exact_mod_cast scaleByPower_pos _ exponent positive
  have scaledValue := scaleByPower_value numerator exponent positive
  rw [value, mul_div_cancel_right₀ _ (by positivity), div_eq_iff divisorPositive.ne'] at scaledValue
  exact_mod_cast scaledValue

/-- The scaled quotient is half the significand at the next exponent. -/
theorem scaleByPower_succ_of_value (positive : 0 < denominator)
    (value : (numerator : ℚ) / denominator = significand * 2 ^ exponent) :
    2 * (scaleByPower numerator denominator (exponent + 1)).1 =
      significand * (scaleByPower numerator denominator (exponent + 1)).2 := by
  have divisorPositive : (0 : ℚ) < (scaleByPower numerator denominator (exponent + 1)).2 := by
    exact_mod_cast scaleByPower_pos _ (exponent + 1) positive
  have powerPositive : (0 : ℚ) < 2 ^ exponent := by positivity
  have scaledValue := scaleByPower_value numerator (exponent + 1) positive
  rw [value, zpow_add_one₀ two_ne_zero, div_eq_iff divisorPositive.ne'] at scaledValue
  have : (2 : ℚ) * (scaleByPower numerator denominator (exponent + 1)).1 =
      significand * (scaleByPower numerator denominator (exponent + 1)).2 := by
    rw [scaledValue]
    field_simp
  exact_mod_cast this

/-- The unit of an exact value is the exponent of the double. -/
theorem unitExponent_eq (scaled : Scaled significand exponent bits) (nonzero : significand ≠ 0)
    (positive : 0 < denominator)
    (value : (numerator : ℚ) / denominator = significand * 2 ^ exponent) :
    unitExponent numerator denominator = exponent := by
  rcases log2_bounds positive nonzero value with ⟨lower, upper⟩
  have lowest := scaled.lowest
  simp only [unitExponent]
  by_cases normal : leadingOne ≤ significand
  · have log2_eq : significand.log2 = 52 := by
      have small := scaled.significand_lt
      rw [Nat.log2_eq_iff nonzero]
      simp only [leadingOne] at *
      omega
    rw [log2_eq] at lower upper
    rcases (by omega : (numerator.log2 : ℤ) - denominator.log2 - 52 = exponent ∨
        (numerator.log2 : ℤ) - denominator.log2 - 52 = exponent + 1) with estimate | estimate
    · have quotient : (scaleByPower numerator denominator exponent).1 /
          (scaleByPower numerator denominator exponent).2 = significand := by
        rw [scaleByPower_eq_of_value positive value]
        exact Nat.mul_div_cancel _ (scaleByPower_pos _ exponent positive)
      rw [estimate, quotient, if_neg (Nat.not_lt.mpr normal)]
      omega
    · have quotient : (scaleByPower numerator denominator (exponent + 1)).1 /
          (scaleByPower numerator denominator (exponent + 1)).2 < leadingOne := by
        have divisorPositive := scaleByPower_pos numerator (exponent + 1) positive
        have half := scaleByPower_succ_of_value positive value
        have smaller := Nat.mul_lt_mul_of_pos_right scaled.significand_lt divisorPositive
        rw [Nat.div_lt_iff_lt_mul divisorPositive]
        rw [Nat.mul_assoc, ← half] at smaller
        omega
      rw [estimate, if_pos quotient]
      omega
  · have isLowest := scaled.normal.resolve_left normal
    have log2_lt : significand.log2 < 52 := (Nat.log2_lt nonzero).mpr (Nat.not_le.mp normal)
    split <;> omega

theorem roundHalfEven_mul (quotient : Nat) {denominator : Nat} (positive : 0 < denominator) :
    roundHalfEven (quotient * denominator) denominator = quotient := by
  simp [roundHalfEven, positive, Nat.mul_div_cancel quotient positive]

/-- A quotient that is the exact value of a double is rounded to this double. -/
theorem nearestBits_of_value (scaled : Scaled significand exponent bits) (nonzero : significand ≠ 0)
    (positive : 0 < denominator)
    (value : (numerator : ℚ) / denominator = significand * 2 ^ exponent) :
    nearestBits numerator denominator = bits := by
  have numeratorNonzero : numerator ≠ 0 := by
    rintro rfl
    have : (0 : ℚ) < significand * 2 ^ exponent := by positivity
    simp [← value] at this
  rw [nearestBits, if_neg numeratorNonzero]
  simp only [unitExponent_eq scaled nonzero positive value]
  rw [scaleByPower_eq_of_value positive value,
    roundHalfEven_mul significand (scaleByPower_pos _ exponent positive), ← scaled.bits_eq]
  exact Nat.min_eq_left scaled.bits_le

end Formulary.Number
