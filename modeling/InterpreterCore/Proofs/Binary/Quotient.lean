import InterpreterCore.Binary.Arithmetic
import InterpreterCore.Proofs.Binary.Number
import Mathlib.Data.Rat.Floor

namespace InterpreterCore.Binary

open Format

variable {format : Format}

namespace Format

/-- The size from which on numbers are rounded to an infinity: half a last place short of the least
    power of two that is too large to be finite. -/
def overflowBound (format : Format) : ℚ :=
  2 ^ (format.overflowExponent : ℤ) - 2 ^ ((format.overflowExponent : ℤ) - format.precision - 1)

/-- The bound is where the cell of the infinities begins. -/
theorem Regular.bound_infinity (hformat : format.Regular) :
    format.bound format.infinity = format.overflowBound := by
  have hlargest : format.infinity = format.infinity - 1 + 1 :=
    (Nat.sub_one_add_one hformat.infinity_pos.ne').symm
  have hnext := point_infinity hformat
  have hstep : format.bound (format.infinity - 1 + 1) = format.point (format.infinity - 1) +
      2 ^ (format.exponentAt (format.infinity - 1) - 1) := bound_succ_eq_add _
  rw [hlargest, point_succ] at hnext
  rw [← hlargest] at hstep
  rw [hformat.exponentAt_largest, two_zpow_eq_double] at hnext
  rw [hstep, hformat.exponentAt_largest, overflowBound]
  linarith

theorem Regular.even_infinity (hformat : format.Regular) : Even format.infinity :=
  hformat.even_leadingWeight.mul_left _

/-- The bound itself is rounded to infinity, because the magnitude of the infinities is even. -/
theorem RoundsTo.infinity_le_iff (hformat : format.Regular) {size : ℚ} {magnitude : Nat}
    (hrounds : format.RoundsTo size magnitude) :
    format.infinity ≤ magnitude ↔ format.overflowBound ≤ size := by
  rw [← hformat.bound_infinity]
  constructor
  · exact fun hle => (bound_strictMono.monotone hle).trans hrounds.bound_le
  · intro hover
    by_contra hlt
    rw [not_le] at hlt
    have hends : format.bound (magnitude + 1) ≤ format.bound format.infinity :=
      bound_strictMono.monotone hlt
    have hmeet : size = format.bound (magnitude + 1) :=
      hrounds.le_bound.antisymm (hends.trans hover)
    have hnext : magnitude + 1 = format.infinity :=
      bound_strictMono.injective (hends.antisymm (hover.trans hmeet.le))
    have heven : Even (magnitude + 1) := hnext ▸ hformat.even_infinity
    exact Nat.even_add_one.mp heven (hrounds.even (.inr hmeet))

end Format

/-- The whole part of a number: what remains when its fraction is cut off toward zero. -/
def wholePart (number : ℚ) : ℤ := if 0 ≤ number then ⌊number⌋ else ⌈number⌉

theorem wholePart_withSign (negative : Bool) {size : ℚ} (hsize : 0 ≤ size) :
    wholePart (withSign negative size) = if negative then -⌊size⌋ else ⌊size⌋ := by
  cases negative with
  | false => exact if_pos hsize
  | true =>
    show wholePart (-size) = -⌊size⌋
    obtain rfl | hpos := hsize.eq_or_lt
    · rw [neg_zero, wholePart, if_pos le_rfl, Int.floor_zero, neg_zero]
    · rw [wholePart, if_neg (by linarith), Int.ceil_neg]

theorem withSign_mul (negative other : Bool) (a b : ℚ) :
    withSign negative a * withSign other b = withSign (negative != other) (a * b) := by
  cases negative <;> cases other
  · rfl
  · exact mul_neg a b
  · exact neg_mul a b
  · exact neg_mul_neg a b

theorem withSign_div (negative other : Bool) (a b : ℚ) :
    withSign negative a / withSign other b = withSign (negative != other) (a / b) := by
  cases negative <;> cases other
  · rfl
  · exact div_neg a
  · exact neg_div b a
  · exact neg_div_neg_eq a b

theorem withSign_sub (negative : Bool) (a b : ℚ) :
    withSign negative a - withSign negative b = withSign negative (a - b) := by
  cases negative
  · rfl
  · exact (neg_sub_neg a b).trans (neg_sub a b).symm

theorem cast_wholePart_withSign (negative : Bool) (num den : Nat) :
    (wholePart (withSign negative (num / den)) : ℚ) = withSign negative (num / den : Nat) := by
  rw [wholePart_withSign negative (div_nonneg (Nat.cast_nonneg num) (Nat.cast_nonneg den)),
    Rat.floor_natCast_div_natCast, ← Int.natCast_div]
  cases negative
  · exact Int.cast_natCast _
  · exact (Int.cast_neg _).trans (congrArg Neg.neg (Int.cast_natCast _))

/-- What is left of a multiple of a unit when another is taken out of it a whole number of times. -/
theorem sub_mul_wholePart (negative other : Bool) (num den : Nat) {unit : ℚ} (hunit : 0 < unit) :
    withSign negative (num * unit) - withSign other (den * unit) *
        wholePart (withSign negative (num * unit) / withSign other (den * unit)) =
      withSign negative ((num % den : Nat) * unit) := by
  have hsign : (other != (negative != other)) = negative := by
    cases negative <;> cases other <;> rfl
  have hleft : ((num % den : Nat) : ℚ) = num - den * (num / den : Nat) := by
    rw [eq_sub_iff_add_eq', ← Nat.cast_mul, ← Nat.cast_add, Nat.div_add_mod]
  rw [withSign_div, mul_div_mul_right _ _ hunit.ne', cast_wholePart_withSign, withSign_mul, hsign,
    withSign_sub, hleft, sub_mul, mul_right_comm]

section Exact

variable {x y : Binary format}

theorem significand_pos (hzero : y.isZero = false) : 0 < y.significand :=
  Nat.pos_of_ne_zero fun hsignificand =>
    beq_eq_false_iff_ne.mp hzero (y.significand_eq_zero_iff.mp hsignificand)

/-- The exact quotient as one of whole numbers. -/
theorem abs_div_number : |x.number / y.number| =
    (x.significand * Nat.pow 2 (x.exponent - y.exponent).toNat : Nat) /
      (y.significand * Nat.pow 2 (-(x.exponent - y.exponent)).toNat : Nat) := by
  have hpower := zpow_eq_div two_pos (x.exponent - y.exponent)
  rw [Nat.cast_ofNat, zpow_sub₀ two_ne_zero] at hpower
  rw [abs_div, abs_number, abs_number, point_magnitude, point_magnitude, mul_div_mul_comm, hpower,
    div_mul_div_comm, Nat.cast_mul, Nat.cast_mul]

/-- A value is the multiple of a power of two that it is scaled to. -/
theorem scaled_mul {exponent : ℤ} (hle : exponent ≤ x.exponent) :
    (x.scaled exponent : ℚ) * 2 ^ exponent = x.number := by
  obtain ⟨places, hplaces⟩ := Int.eq_ofNat_of_zero_le (sub_nonneg.mpr hle)
  have hexponent : (places : ℤ) + exponent = x.exponent := by omega
  have hsize : ((x.significand * Nat.pow 2 places : Nat) : ℚ) * 2 ^ exponent =
      x.significand * 2 ^ x.exponent := by
    rw [← hexponent, zpow_add₀ two_ne_zero, zpow_natCast, Nat.cast_mul, Nat.pow_eq, Nat.cast_pow,
      Nat.cast_ofNat, mul_assoc]
  rw [scaled, hplaces, Int.toNat_natCast, number, ← hsize]
  cases x.negative
  · rfl
  · show ((-(x.significand * Nat.pow 2 places : Nat) : ℤ) : ℚ) * _ = -_
    rw [Int.cast_neg, Int.cast_natCast, neg_mul]

theorem natAbs_scaled_mul {exponent : ℤ} (hle : exponent ≤ x.exponent) :
    ((x.scaled exponent).natAbs : ℚ) * 2 ^ exponent = format.point x.magnitude := by
  rw [← abs_number, ← scaled_mul hle, abs_mul, abs_of_pos (two_zpow_pos exponent),
    Nat.cast_natAbs, Int.cast_abs]

theorem natAbs_scaled_exponent_lt (x : Binary format) :
    (x.scaled x.exponent).natAbs < 2 * format.leadingWeight := by
  have hsize : ((x.scaled x.exponent).natAbs : ℚ) = x.significand :=
    mul_right_cancel₀ (two_zpow_pos x.exponent).ne' (natAbs_scaled_mul le_rfl)
  rw [Nat.cast_inj.mp hsize]
  exact significandAt_lt x.magnitude

theorem natAbs_scaled_pos (hzero : y.isZero = false) {exponent : ℤ} (hle : exponent ≤ y.exponent) :
    0 < (y.scaled exponent).natAbs := by
  have hpoint : 0 < format.point y.magnitude :=
    point_pos (Nat.pos_of_ne_zero (beq_eq_false_iff_ne.mp hzero))
  rw [← natAbs_scaled_mul hle] at hpoint
  exact Nat.cast_pos.mp (pos_of_mul_pos_left hpoint (two_zpow_pos exponent).le)

end Exact

section Finite

variable {x y : Binary format} (hx : x.isFinite = true) (hy : y.isFinite = true)
  (hzero : y.isZero = false)
include hx hy hzero

/-- The quotient of finite values is their exact quotient, rounded. -/
theorem div_of_finite : x.div y = nearest format (x.negative != y.negative)
    (x.significand * Nat.pow 2 (x.exponent - y.exponent).toNat)
    (y.significand * Nat.pow 2 (-(x.exponent - y.exponent)).toNat) := by
  simp only [div, isNaN_of_finite hx, isNaN_of_finite hy, isInfinite_of_finite hx,
    isInfinite_of_finite hy, hzero, Bool.or_false, Bool.false_eq_true, if_false]

theorem isNaN_div : (x.div y).isNaN = false := by
  rw [div_of_finite hx hy hzero]
  exact isNaN_nearest _ _ _

/-- A quotient of finite values is infinite exactly when its exact number is past the bound. -/
theorem isFinite_div_eq_false_iff (hformat : format.Regular) :
    (x.div y).isFinite = false ↔ format.overflowBound ≤ |x.number / y.number| := by
  have hdivisor : 0 < y.significand * Nat.pow 2 (-(x.exponent - y.exponent)).toNat :=
    mul_pow_pos (significand_pos hzero) two_pos _
  rw [div_of_finite hx hy hzero, abs_div_number]
  obtain ⟨magnitude, hrounds, hnearest⟩ := exists_nearest_eq hformat (x.negative != y.negative)
    (x.significand * Nat.pow 2 (x.exponent - y.exponent).toNat) hdivisor
  rw [hnearest, ← hrounds.infinity_le_iff hformat, isFinite, decide_eq_false_iff_not, not_lt]
  exact le_min_iff.trans (and_iff_left le_rfl)

/-- A remainder of finite values is what is left of the dividend when the divisor is taken out of it
    a whole number of times, counted toward zero. It is finite and needs no rounding. -/
theorem exists_rem_eq (hformat : format.Regular) :
    ∃ magnitude < format.infinity, x.rem y = saturating format x.negative magnitude ∧
      withSign x.negative (format.point magnitude) =
        x.number - y.number * wholePart (x.number / y.number) := by
  simp only [rem, isNaN_of_finite hx, isNaN_of_finite hy, isInfinite_of_finite hx,
    isInfinite_of_finite hy, hzero, Bool.or_false, Bool.false_eq_true, if_false]
  generalize hexponent : min x.exponent y.exponent = exponent
  have habove : exponent ≤ x.exponent := by omega
  have hbelow : exponent ≤ y.exponent := by omega
  have hunit := two_zpow_pos exponent
  have hdivisor := natAbs_scaled_pos hzero hbelow
  have hremainder := sub_mul_wholePart x.negative y.negative (x.scaled exponent).natAbs
    (y.scaled exponent).natAbs hunit
  rw [natAbs_scaled_mul habove, natAbs_scaled_mul hbelow, ← number_eq, ← number_eq] at hremainder
  generalize hleft : (x.scaled exponent).natAbs % (y.scaled exponent).natAbs = left at hremainder ⊢
  have hle : left ≤ (y.scaled exponent).natAbs := hleft ▸ (Nat.mod_lt _ hdivisor).le
  -- The exponent is that of one of the two values, whose significand bounds what is left.
  have hsmall : left ≤ 2 * format.leadingWeight := by
    have hx := x.natAbs_scaled_exponent_lt
    have hy := y.natAbs_scaled_exponent_lt
    obtain hown | hown : x.exponent = exponent ∨ y.exponent = exponent := by omega
    · rw [hown] at hx
      have hmod := Nat.mod_le (x.scaled exponent).natAbs (y.scaled exponent).natAbs
      omega
    · rw [hown] at hy
      omega
  obtain ⟨magnitude, hpoint⟩ := exists_point_eq hsmall
    (show format.leastExponent ≤ exponent by
      have hleast := x.leastExponent_le_exponent
      have hother := y.leastExponent_le_exponent
      omega)
  have hrounds : format.RoundsTo (left * 2 ^ exponent) magnitude := hpoint ▸ .point magnitude
  have hmagnitude : magnitude ≤ y.magnitude := by
    refine hrounds.le_of_le_point ?_
    rw [← natAbs_scaled_mul hbelow]
    exact mul_le_mul_of_nonneg_right (Nat.cast_le.mpr hle) hunit.le
  refine ⟨magnitude, hmagnitude.trans_lt (magnitude_lt_infinity hy), ?_, ?_⟩
  · exact nearestScaled_eq_saturating hformat x.negative hrounds
  · rw [hpoint, hremainder]

theorem isFinite_rem (hformat : format.Regular) : (x.rem y).isFinite = true := by
  obtain ⟨magnitude, hlt, hrem, _⟩ := exists_rem_eq hx hy hzero hformat
  rw [hrem, isFinite, magnitude_saturating _ hlt]
  exact decide_eq_true hlt

/-- A remainder is never rounded: it is what the whole part of the quotient leaves of `x`. -/
theorem number_rem (hformat : format.Regular) :
    (x.rem y).number = x.number - y.number * wholePart (x.number / y.number) := by
  obtain ⟨magnitude, hlt, hrem, hexact⟩ := exists_rem_eq hx hy hzero hformat
  rw [hrem, number_saturating _ hlt, hexact]

end Finite

end InterpreterCore.Binary
