import InterpreterCore.Decimal.Basic
import InterpreterCore.Proofs.Binary.Nearest

namespace InterpreterCore

open Binary

namespace Decimal

/-- The number that a decimal stands for. -/
def value (d : Decimal) : ℚ := d.coefficient * 10 ^ d.exponent

theorem ten_zpow_pos (exponent : ℤ) : (0 : ℚ) < 10 ^ exponent := zpow_pos (by norm_num) exponent

theorem value_nonneg (d : Decimal) : 0 ≤ d.value :=
  mul_nonneg (Nat.cast_nonneg _) (ten_zpow_pos _).le

theorem value_pos_iff (d : Decimal) : 0 < d.value ↔ 0 < d.coefficient := by
  rw [value, mul_pos_iff_of_pos_right (ten_zpow_pos _), Nat.cast_pos]

/-- The value of a decimal as a quotient. -/
theorem value_eq_div (d : Decimal) :
    d.value = (d.coefficient * Nat.pow 10 d.exponent.toNat : Nat) /
      (Nat.pow 10 (-d.exponent).toNat : Nat) := by
  have hpower : (10 : ℚ) ^ d.exponent = _ := zpow_eq_div (by decide : 0 < 10) d.exponent
  rw [value, hpower, Nat.cast_mul, mul_div_assoc]

/-- Moving a factor ten between the coefficient and the exponent keeps the number. -/
theorem value_stripWithin (steps : Nat) (d : Decimal) : (stripWithin steps d).value = d.value := by
  induction steps generalizing d with
  | zero => rfl
  | succ steps ih =>
    rw [stripWithin]
    split
    · rename_i hzero
      have hcoefficient : (d.coefficient : ℚ) = (d.coefficient / 10 : Nat) * 10 := by
        exact_mod_cast (Nat.div_mul_cancel (Nat.dvd_of_mod_eq_zero hzero)).symm
      rw [ih, value, value, hcoefficient, zpow_add_one₀ (by norm_num)]
      ring
    · rfl

theorem value_strip (d : Decimal) : d.strip.value = d.value := by
  rw [strip]
  split
  · rfl
  · exact value_stripWithin _ d

theorem ten_zpow (exponent : ℤ) : (10 : ℚ) ^ exponent = 2 ^ exponent * 5 ^ exponent := by
  rw [← mul_zpow]
  norm_num

theorem ten_zpow_le_two_zpow {exponent : ℤ} (hexponent : exponent ≤ 0) :
    (10 : ℚ) ^ exponent ≤ 2 ^ exponent := by
  have hfive : (5 : ℚ) ^ exponent ≤ 1 := zpow_le_one_of_nonpos₀ (by norm_num) hexponent
  rw [ten_zpow]
  exact mul_le_of_le_one_right (two_zpow_pos exponent).le hfive

theorem two_zpow_le_ten_zpow {exponent : ℤ} (hexponent : 0 ≤ exponent) :
    (2 : ℚ) ^ exponent ≤ 10 ^ exponent := by
  have hfive : (1 : ℚ) ≤ 5 ^ exponent := one_le_zpow₀ (by norm_num) hexponent
  rw [ten_zpow]
  exact le_mul_of_one_le_right (two_zpow_pos exponent).le hfive

section Nearest

variable {format : Format} (hformat : format.Regular)
include hformat

/-- Below the clamp of the exponents a decimal lies in the cell of zero. -/
theorem value_lt_bound_one {d : Decimal}
    (hlow : d.exponent ≤ format.leastExponent - d.coefficient.log2 - 2) :
    d.value < format.bound 1 := by
  have hleast := hformat.leastExponent_nonpos
  rw [Format.bound_one]
  obtain hzero | hpos := Nat.eq_zero_or_pos d.coefficient
  · rw [value, hzero, Nat.cast_zero, zero_mul]
    exact two_zpow_pos _
  · calc d.value ≤ d.coefficient * 2 ^ d.exponent :=
          mul_le_mul_of_nonneg_left (ten_zpow_le_two_zpow (by omega)) (Nat.cast_nonneg _)
      _ < 2 ^ ((d.coefficient.log2 : ℤ) + 1) * 2 ^ d.exponent :=
          mul_lt_mul_of_pos_right (log2_bounds hpos).2 (two_zpow_pos _)
      _ = 2 ^ ((d.coefficient.log2 : ℤ) + 1 + d.exponent) := (zpow_add₀ two_ne_zero _ _).symm
      _ ≤ 2 ^ (format.leastExponent - 1) := zpow_le_zpow_right₀ one_le_two (by omega)

/-- Above the clamp of the exponents a decimal is too large to be finite. -/
theorem point_infinity_le_value {d : Decimal} (hpos : 0 < d.coefficient)
    (hhigh : (format.overflowExponent : ℤ) ≤ d.exponent) :
    format.point format.infinity ≤ d.value := by
  have hcoefficient : (1 : ℚ) ≤ d.coefficient := Nat.one_le_cast.mpr hpos
  rw [Format.point_infinity hformat]
  calc (2 : ℚ) ^ (format.overflowExponent : ℤ) ≤ 2 ^ d.exponent :=
        zpow_le_zpow_right₀ one_le_two hhigh
    _ ≤ 10 ^ d.exponent := two_zpow_le_ten_zpow (by omega)
    _ ≤ d.value := le_mul_of_one_le_left (ten_zpow_pos _).le hcoefficient

/-- A decimal denotes the value at the magnitude whose cell holds its number. Where its exponent is
    clamped, the number and the clamped one are both in the cell of zero or both past the finite
    values. -/
theorem toBinary_eq_saturating (negative : Bool) {d : Decimal} {magnitude : Nat}
    (hrounds : format.RoundsTo d.value magnitude) :
    d.toBinary format negative = saturating format negative magnitude := by
  have hleast := hformat.leastExponent_nonpos
  obtain ⟨clamped, hclamped⟩ : ∃ clamped, clamped =
      max (format.leastExponent - d.coefficient.log2 - 2)
        (min d.exponent (format.overflowExponent : ℤ)) := ⟨_, rfl⟩
  obtain ⟨place, hplace⟩ := exists_roundsTo hformat (value_nonneg ⟨d.coefficient, clamped⟩)
  have hbinary : d.toBinary format negative = saturating format negative place := by
    rw [toBinary, ← hclamped]
    refine nearest_eq_saturating hformat negative (Nat.pow_pos (by decide)) ?_
    rwa [value_eq_div] at hplace
  rw [hbinary]
  have hcases : clamped = d.exponent ∨
      (clamped = format.leastExponent - d.coefficient.log2 - 2 ∧ d.exponent ≤ clamped) ∨
      (clamped = (format.overflowExponent : ℤ) ∧ clamped ≤ d.exponent) := by omega
  obtain hkept | ⟨hlow, hle⟩ | ⟨hhigh, hle⟩ := hcases
  · rw [hkept] at hplace
    rw [hplace.unique hrounds]
  · have hzero := hrounds.eq_zero_of_lt (value_lt_bound_one hformat (hle.trans hlow.le))
    have hplaceZero := hplace.eq_zero_of_lt (value_lt_bound_one hformat hlow.le)
    rw [hzero, hplaceZero]
  · obtain hzero | hpos := Nat.eq_zero_or_pos d.coefficient
    · have hsame : value ⟨d.coefficient, clamped⟩ = d.value := by
        rw [value, value, hzero, Nat.cast_zero, zero_mul, zero_mul]
      rw [hsame] at hplace
      rw [hplace.unique hrounds]
    · have hinfinity := hrounds.le_of_point_le
        (point_infinity_le_value hformat hpos (hhigh.ge.trans hle))
      have hplaceInfinity := hplace.le_of_point_le
        (point_infinity_le_value hformat hpos hhigh.ge)
      rw [saturating_of_infinity_le negative hinfinity,
        saturating_of_infinity_le negative hplaceInfinity]

end Nearest

end Decimal

end InterpreterCore
