import InterpreterCore.Binary.Bits
import InterpreterCore.Proofs.Binary.Quotient

namespace InterpreterCore.Binary

open Format

variable {format : Format}

/-- A value is what an exact number is rounded to, once and with the given sign: it has the
    magnitude whose cell holds the size of the number, or is infinite where that is past the finite
    ones. -/
def IsRounded (negative : Bool) (exact : ℚ) (z : Binary format) : Prop :=
  ∃ magnitude, format.RoundsTo |exact| magnitude ∧ z = saturating format negative magnitude

namespace IsRounded

variable {negative : Bool} {exact : ℚ} {z : Binary format}

/-- The number and the sign leave no choice. -/
theorem unique {other : Binary format} (hz : IsRounded negative exact z)
    (hother : IsRounded negative exact other) : z = other := by
  obtain ⟨magnitude, hrounds, rfl⟩ := hz
  obtain ⟨place, hplace, rfl⟩ := hother
  rw [hrounds.unique hplace]

theorem zero (negative : Bool) : IsRounded negative 0 (zero format negative) := by
  refine ⟨0, ?_, rfl⟩
  rw [abs_zero, ← point_zero]
  exact .point 0

theorem nearest (hformat : format.Regular) (negative : Bool) {num den : Nat} (hden : 0 < den)
    (hexact : |exact| = num / den) :
    IsRounded negative exact (nearest format negative num den) := by
  obtain ⟨magnitude, hrounds⟩ := exists_roundsTo hformat (abs_nonneg exact)
  exact ⟨magnitude, hrounds, nearest_eq_saturating hformat negative hden (hexact ▸ hrounds)⟩

theorem nearestScaled (hformat : format.Regular) (negative : Bool) {size : Nat} {exponent : ℤ}
    (hexact : |exact| = size * 2 ^ exponent) :
    IsRounded negative exact (nearestScaled format negative size exponent) := by
  obtain ⟨magnitude, hrounds⟩ := exists_roundsTo hformat (abs_nonneg exact)
  exact ⟨magnitude, hrounds, nearestScaled_eq_saturating hformat negative (hexact ▸ hrounds)⟩

end IsRounded

/-- The sign of a sum. Values that cancel give a positive zero, and only two negative zeros a
    negative one. -/
def sumNegative (x y : Binary format) : Bool :=
  if x.number + y.number = 0 then x.negative && y.negative else x.number + y.number < 0

theorem number_neg (x : Binary format) : x.neg.number = -x.number := by
  obtain ⟨negative, magnitude, hlt⟩ := x
  cases negative
  · rfl
  · exact (neg_neg _).symm

section Infinite

variable {x y : Binary format} (hnumber : (x.isNaN || y.isNaN) = false)
  (hinfinite : (x.isInfinite || y.isInfinite) = true)
include hnumber hinfinite

theorem add_of_infinite : x.add y =
    if x.isInfinite && y.isInfinite && x.negative != y.negative then notANumber format
    else if x.isInfinite then x else y := by
  rw [add, hnumber, if_neg Bool.false_ne_true]
  cases hx : x.isInfinite with
  | false =>
    rw [hx, Bool.false_or] at hinfinite
    rw [if_neg Bool.false_ne_true, if_pos hinfinite]
    rfl
  | true => rw [if_pos rfl, Bool.true_and, if_pos rfl]

theorem mul_of_infinite : x.mul y =
    if x.isZero || y.isZero then notANumber format
    else infinite format (x.negative != y.negative) := by
  simp only [mul, hnumber, hinfinite, Bool.false_eq_true, if_false, if_true]

theorem div_of_infinite : x.div y =
    if x.isInfinite && y.isInfinite then notANumber format
    else if x.isInfinite then infinite format (x.negative != y.negative)
    else zero format (x.negative != y.negative) := by
  simp only [div, hnumber, Bool.false_eq_true, if_false]
  cases hx : x.isInfinite with
  | false =>
    rw [hx, Bool.false_or] at hinfinite
    rw [if_neg Bool.false_ne_true, if_pos hinfinite]
    rfl
  | true => rw [if_pos rfl, Bool.true_and, if_pos rfl]

theorem rem_of_infinite (hzero : y.isZero = false) : x.rem y =
    if x.isInfinite then notANumber format else x := by
  simp only [rem, hnumber, hzero, Bool.false_or, Bool.or_false]
  cases hx : x.isInfinite with
  | false =>
    rw [hx, Bool.false_or] at hinfinite
    rw [if_neg Bool.false_ne_true, if_pos hinfinite]
    rfl
  | true => rw [if_pos rfl, if_pos rfl]

end Infinite

section Finite

variable {x y : Binary format} (hx : x.isFinite = true) (hy : y.isFinite = true)
  (hformat : format.Regular)
include hx hy hformat

/-- The sum of finite values is their exact sum, rounded once. -/
theorem isRounded_add : IsRounded (sumNegative x y) (x.number + y.number) (x.add y) := by
  simp only [add, isNaN_of_finite hx, isNaN_of_finite hy, isInfinite_of_finite hx,
    isInfinite_of_finite hy, Bool.or_false, Bool.false_eq_true, if_false]
  generalize hexponent : min x.exponent y.exponent = exponent
  have hunit := two_zpow_pos exponent
  have hsum : ((x.scaled exponent + y.scaled exponent : ℤ) : ℚ) * 2 ^ exponent =
      x.number + y.number := by
    rw [Int.cast_add, add_mul, scaled_mul (by omega), scaled_mul (by omega)]
  generalize x.scaled exponent + y.scaled exponent = sum at hsum ⊢
  rw [sumNegative, ← hsum]
  by_cases hzero : sum = 0
  · rw [if_pos hzero, hzero, Int.cast_zero, zero_mul, if_pos rfl]
    exact .zero _
  · have hne : (sum : ℚ) * 2 ^ exponent ≠ 0 :=
      mul_ne_zero (Int.cast_ne_zero.mpr hzero) hunit.ne'
    have hsign : (sum : ℚ) * 2 ^ exponent < 0 ↔ sum < 0 :=
      ⟨fun hneg => Int.cast_lt_zero.mp (neg_of_mul_neg_left hneg hunit.le),
        fun hneg => mul_neg_of_neg_of_pos (Int.cast_lt_zero.mpr hneg) hunit⟩
    rw [if_neg hzero, if_neg hne, decide_eq_decide.mpr hsign]
    refine .nearestScaled hformat _ ?_
    rw [abs_mul, abs_of_pos hunit, Nat.cast_natAbs, Int.cast_abs]

/-- The difference of finite values is their exact difference, rounded once. -/
theorem isRounded_sub : IsRounded (sumNegative x y.neg) (x.number - y.number) (x.sub y) := by
  have hneg : y.neg.isFinite = true := hy
  have hsum := isRounded_add hx hneg hformat
  rwa [number_neg, ← sub_eq_add_neg] at hsum

/-- The product of finite values is their exact product, rounded once. -/
theorem isRounded_mul :
    IsRounded (x.negative != y.negative) (x.number * y.number) (x.mul y) := by
  simp only [mul, isNaN_of_finite hx, isNaN_of_finite hy, isInfinite_of_finite hx,
    isInfinite_of_finite hy, Bool.or_false, Bool.false_eq_true, if_false]
  refine .nearestScaled hformat _ ?_
  rw [abs_mul, abs_number, abs_number, point_magnitude, point_magnitude, Nat.cast_mul,
    zpow_add₀ two_ne_zero, mul_mul_mul_comm]

variable (hzero : y.isZero = false)
include hzero

/-- The quotient of finite values is their exact quotient, rounded once. -/
theorem isRounded_div :
    IsRounded (x.negative != y.negative) (x.number / y.number) (x.div y) := by
  rw [div_of_finite hx hy hzero]
  exact .nearest hformat _ (mul_pow_pos (significand_pos hzero) two_pos _) abs_div_number

/-- The remainder of finite values is exact, so that rounding does nothing to it. -/
theorem isRounded_rem : IsRounded x.negative
    (x.number - y.number * wholePart (x.number / y.number)) (x.rem y) := by
  obtain ⟨magnitude, _, hrem, hexact⟩ := exists_rem_eq hx hy hzero hformat
  refine ⟨magnitude, ?_, hrem⟩
  rw [← hexact, abs_withSign _ (point_nonneg magnitude)]
  exact .point magnitude

end Finite

end InterpreterCore.Binary
