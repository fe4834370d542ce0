import InterpreterCore.Binary.Rounding

namespace InterpreterCore.Binary

variable {format : Format}

theorem isNaN_saturating (negative : Bool) (magnitude : Nat) :
    (saturating format negative magnitude).isNaN = false := by
  have hle : min magnitude format.infinity ≤ format.infinity := Nat.min_le_right _ _
  rw [isNaN, saturating]
  exact decide_eq_false (Nat.not_lt.mpr hle)

/-- Rounding always gives a number. -/
theorem isNaN_nearest (negative : Bool) (num den : Nat) :
    (nearest format negative num den).isNaN = false := by
  rw [nearest]
  split
  · exact isNaN_saturating negative 0
  · exact isNaN_saturating negative _

theorem isNaN_ofInt (n : Int) : (ofInt format n).isNaN = false := isNaN_nearest _ _ _

theorem isZero_saturating (hinfinity : 0 < format.infinity) (negative : Bool) (magnitude : Nat) :
    (saturating format negative magnitude).isZero = (magnitude == 0) := by
  have hmagnitude :
      (saturating format negative magnitude).magnitude = min magnitude format.infinity := rfl
  rw [isZero, hmagnitude, Bool.eq_iff_iff, beq_iff_eq, beq_iff_eq]
  omega

theorem roundQuotient_pos {num den : Nat} (hden : 0 < den) (hle : den ≤ num) :
    0 < roundQuotient num den := by
  have hwhole : 0 < num / den := Nat.div_pos hle hden
  rw [roundQuotient]
  split
  · exact hwhole
  · exact Nat.succ_pos _
  · split
    · exact hwhole
    · exact Nat.succ_pos _

section Reach

variable (hinfinity : 0 < format.infinity) (hleast : format.leastExponent ≤ 0)
include hinfinity hleast

/-- A quotient of at least the smallest positive value is not rounded to zero: its exponent is above
    the least one, or it is at least one in the last place of the least one. -/
theorem isZero_nearest (negative : Bool) {num den : Nat} (hden : 0 < den)
    (hle : den ≤ num * Nat.pow 2 (-format.leastExponent).toNat) :
    (nearest format negative num den).isZero = false := by
  have hnum : num ≠ 0 := by
    rintro rfl
    omega
  rw [nearest, if_neg hnum, isZero_saturating hinfinity, beq_eq_false_iff_ne]
  generalize hexponent :
    max (quotientLog num den + 1 - format.precision) format.leastExponent = exponent
  by_cases hbottom : exponent = format.leastExponent
  · have hround : 0 < roundQuotient (num * Nat.pow 2 (-exponent).toNat)
        (den * Nat.pow 2 exponent.toNat) := by
      have hunit : den * Nat.pow 2 exponent.toNat = den := by
        rw [hbottom, Int.toNat_of_nonpos hleast]
        exact Nat.mul_one den
      rw [hunit, hbottom]
      exact roundQuotient_pos hden hle
    omega
  · have habove : 0 < (exponent - format.leastExponent).toNat := by omega
    have hshare := Nat.mul_pos habove format.leadingWeight_pos
    omega

/-- An integer is rounded to zero only where it is zero. -/
theorem isZero_ofInt (n : Int) : (ofInt format n).isZero = (n == 0) := by
  by_cases hzero : n = 0
  · rw [hzero, ofInt, Int.natAbs_zero, nearest, if_pos rfl]
    exact isZero_saturating hinfinity _ 0
  · have hsize : 0 < n.natAbs := Int.natAbs_pos.mpr hzero
    rw [beq_eq_false_iff_ne.mpr hzero, ofInt]
    exact isZero_nearest hinfinity hleast _ Nat.one_pos
      (Nat.mul_pos hsize (Nat.two_pow_pos _))

/-- A multiple of a power of two that the format reaches is rounded to zero only where it is
    zero. -/
theorem isZero_nearestScaled (negative : Bool) (size : Nat) {exponent : Int}
    (hexponent : format.leastExponent ≤ exponent) :
    (nearestScaled format negative size exponent).isZero = (size == 0) := by
  rw [nearestScaled]
  by_cases hzero : size = 0
  · rw [hzero, Nat.zero_mul, nearest, if_pos rfl]
    exact isZero_saturating hinfinity negative 0
  · have hpower : Nat.pow 2 (-exponent).toNat ≤ Nat.pow 2 (-format.leastExponent).toNat :=
      Nat.pow_le_pow_right Nat.two_pos (by omega)
    have hsize : 0 < size * Nat.pow 2 exponent.toNat :=
      Nat.mul_pos (Nat.pos_of_ne_zero hzero) (Nat.two_pow_pos _)
    rw [beq_eq_false_iff_ne.mpr hzero]
    exact isZero_nearest hinfinity hleast negative (Nat.two_pow_pos _)
      (Nat.le_trans hpower (Nat.le_mul_of_pos_left _ hsize))

end Reach

/-- Order is defined on all values but those that are not numbers. -/
theorem isSome_compare? (x y : Binary format) :
    (x.compare? y).isSome = (!x.isNaN && !y.isNaN) := by
  rw [compare?]
  cases x.isNaN <;> cases y.isNaN <;> rfl

/-- Numbers of one format are ordered by their signed magnitudes. -/
theorem compare?_of_number {x y : Binary format} (hx : x.isNaN = false) (hy : y.isNaN = false) :
    x.compare? y = some (Ord.compare x.signed y.signed) := by
  rw [compare?, hx, hy]
  rfl

theorem significand_eq_zero_iff (x : Binary format) : x.significand = 0 ↔ x.magnitude = 0 := by
  have hweight := format.leadingWeight_pos
  rw [significand, exponentField]
  split
  · exact Iff.rfl
  · rename_i hfield
    have hmagnitude : x.magnitude ≠ 0 := by
      intro hzero
      rw [hzero, Nat.zero_div] at hfield
      exact hfield rfl
    omega

theorem leastExponent_le_exponent (x : Binary format) : format.leastExponent ≤ x.exponent := by
  rw [exponent]
  omega

/-- A value of the 32-bit format is a number exactly when the value it is widened to is. -/
theorem isNaN_convert_double (x : Single) : (x.convert .double).isNaN = x.isNaN := by
  rw [convert]
  split
  · rename_i hnan
    rw [hnan]
    decide
  · rename_i hnumber
    rw [Bool.not_eq_true] at hnumber
    rw [hnumber]
    split
    · exact isNaN_saturating _ _
    · exact isNaN_nearest _ _ _

/-- A value of the 32-bit format is zero exactly when the value it is widened to is. -/
theorem isZero_convert_double (x : Single) : (x.convert .double).isZero = x.isZero := by
  have hsingle : 0 < Format.single.infinity := by decide
  have hdouble : 0 < Format.double.infinity := by decide
  rw [convert]
  split
  · rename_i hnan
    have hlarge : Format.single.infinity < x.magnitude := of_decide_eq_true hnan
    have hzero : (notANumber .double).isZero = false := by decide
    rw [hzero, isZero, eq_comm, beq_eq_false_iff_ne]
    omega
  · split
    · rename_i hinfinite
      have hlarge : x.magnitude = Format.single.infinity := beq_iff_eq.mp hinfinite
      rw [infinite, isZero_saturating hdouble, isZero, hlarge]
      decide
    · have hreach : Format.double.leastExponent ≤ x.exponent :=
        Int.le_trans (by decide) x.leastExponent_le_exponent
      rw [isZero_nearestScaled hdouble (by decide) _ _ hreach, isZero, Bool.eq_iff_iff, beq_iff_eq,
        beq_iff_eq]
      exact x.significand_eq_zero_iff

end InterpreterCore.Binary
