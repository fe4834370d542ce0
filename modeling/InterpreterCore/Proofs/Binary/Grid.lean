import InterpreterCore.Binary.Basic
import Mathlib.Algebra.Group.Nat.Even
import Mathlib.Algebra.Order.Field.Power
import Mathlib.Algebra.Order.Ring.Rat
import Mathlib.Order.Monotone.Basic
import Mathlib.Tactic.Linarith
import Mathlib.Tactic.Ring

namespace InterpreterCore.Binary

theorem two_zpow_pos (exponent : ℤ) : (0 : ℚ) < 2 ^ exponent := zpow_pos two_pos exponent

theorem two_zpow_eq_double (exponent : ℤ) : (2 : ℚ) ^ exponent = 2 * 2 ^ (exponent - 1) := by
  rw [← zpow_one_add₀ two_ne_zero]
  congr 1
  ring

namespace Format

/-- What rounding asks of a format: neighbours differ in the parity of their significands, and
    there are finite values. -/
structure Regular (format : Format) : Prop where
  two_le_precision : 2 ≤ format.precision
  two_le_exponentBits : 2 ≤ format.exponentBits

theorem regular_single : single.Regular := ⟨by decide, by decide⟩

theorem regular_double : double.Regular := ⟨by decide, by decide⟩

/-- Significands and magnitudes have one parity. -/
theorem Regular.even_leadingWeight {format : Format} (hformat : format.Regular) :
    Even format.leadingWeight := by
  obtain ⟨places, hplaces⟩ := Nat.exists_eq_add_of_le hformat.two_le_precision
  refine even_iff_two_dvd.mpr (Dvd.intro (Nat.pow 2 places) ?_)
  have hpred : format.precision - 1 = places + 1 := by omega
  rw [leadingWeight, hpred, Nat.pow_eq, Nat.pow_eq, pow_succ']

theorem Regular.leadingWeight_eq_zpow {format : Format} (hformat : format.Regular) :
    (format.leadingWeight : ℚ) = 2 ^ ((format.precision : ℤ) - 1) := by
  have hprecision := hformat.two_le_precision
  have hpred : (format.precision : ℤ) - 1 = (format.precision - 1 : Nat) := by omega
  rw [hpred, zpow_natCast, leadingWeight, Nat.pow_eq, Nat.cast_pow, Nat.cast_ofNat]

theorem Regular.leastExponent_nonpos {format : Format} (hformat : format.Regular) :
    format.leastExponent ≤ 0 := by
  have hprecision := hformat.two_le_precision
  have hbias : 0 < Nat.pow 2 (format.exponentBits - 1) := Nat.two_pow_pos _
  rw [leastExponent]
  omega

variable (format : Format)

/-- The number of places that the last place at a magnitude is above the least one. -/
def level (magnitude : Nat) : Nat := magnitude / format.leadingWeight - 1

/-- The significand at a magnitude. -/
def significandAt (magnitude : Nat) : Nat :=
  if magnitude / format.leadingWeight = 0 then magnitude
  else format.leadingWeight + magnitude % format.leadingWeight

/-- The binary exponent of the last place at a magnitude. -/
def exponentAt (magnitude : Nat) : ℤ := format.leastExponent + format.level magnitude

/-- The size of the value at a magnitude. The grid goes on past the finite values. -/
def point (magnitude : Nat) : ℚ := format.significandAt magnitude * 2 ^ format.exponentAt magnitude

variable {format}

theorem level_add_significandAt (magnitude : Nat) :
    format.level magnitude * format.leadingWeight + format.significandAt magnitude = magnitude := by
  have hdivision := Nat.div_add_mod magnitude format.leadingWeight
  rw [level, significandAt]
  split
  · rename_i hfield
    rw [hfield, Nat.zero_sub, Nat.zero_mul, Nat.zero_add]
  · rename_i hfield
    obtain ⟨levels, hlevels⟩ := Nat.exists_eq_succ_of_ne_zero hfield
    rw [hlevels, Nat.mul_succ, Nat.mul_comm] at hdivision
    rw [hlevels, Nat.succ_sub_one]
    omega

theorem significandAt_lt (magnitude : Nat) :
    format.significandAt magnitude < 2 * format.leadingWeight := by
  have hweight := format.leadingWeight_pos
  rw [significandAt]
  split
  · rename_i hfield
    have hsmall := Nat.lt_of_div_eq_zero hweight hfield
    omega
  · have hrest := Nat.mod_lt magnitude hweight
    omega

/-- Only on the lowest level are there significands without the leading digit. -/
theorem level_eq_zero_or_le_significandAt (magnitude : Nat) :
    format.level magnitude = 0 ∨ format.leadingWeight ≤ format.significandAt magnitude := by
  rw [level, significandAt]
  split
  · rename_i hfield
    exact .inl (by rw [hfield])
  · exact .inr (Nat.le_add_right _ _)

/-- The point of a level and a significand. A significand of twice the leading weight belongs to the
    next level, where it is the leading weight. -/
theorem point_level_add {level significand : Nat}
    (hleading : level = 0 ∨ format.leadingWeight ≤ significand)
    (hle : significand ≤ 2 * format.leadingWeight) :
    format.point (level * format.leadingWeight + significand) =
      significand * 2 ^ (format.leastExponent + level) := by
  have hweight := format.leadingWeight_pos
  obtain hsmall | hfull | hover : significand < format.leadingWeight ∨
      (format.leadingWeight ≤ significand ∧ significand < 2 * format.leadingWeight) ∨
      significand = 2 * format.leadingWeight := by omega
  · -- Without the leading digit there is only the lowest level.
    obtain rfl : level = 0 := by omega
    have hfield : significand / format.leadingWeight = 0 := Nat.div_eq_of_lt hsmall
    rw [Nat.zero_mul, Nat.zero_add, point, significandAt, if_pos hfield, exponentAt, Format.level,
      hfield, Nat.zero_sub]
  · obtain ⟨rest, rfl⟩ := Nat.exists_eq_add_of_le hfull.1
    have hrest : rest < format.leadingWeight := by omega
    have hplace : level * format.leadingWeight + (format.leadingWeight + rest) =
        rest + format.leadingWeight * (level + 1) := by ring
    have hfield : (rest + format.leadingWeight * (level + 1)) / format.leadingWeight = level + 1 := by
      rw [Nat.add_mul_div_left _ _ hweight, Nat.div_eq_of_lt hrest, Nat.zero_add]
    rw [hplace, point, significandAt, exponentAt, Format.level, hfield, if_neg (Nat.succ_ne_zero _),
      Nat.add_mul_mod_self_left, Nat.mod_eq_of_lt hrest, Nat.succ_sub_one]
  · -- The carry into the next level.
    subst hover
    have hplace : level * format.leadingWeight + 2 * format.leadingWeight =
        format.leadingWeight * (level + 2) := by ring
    have hfield : format.leadingWeight * (level + 2) / format.leadingWeight = level + 2 :=
      Nat.mul_div_cancel_left _ hweight
    have hlevel : level + 2 - 1 = level + 1 := rfl
    rw [hplace, point, significandAt, exponentAt, Format.level, hfield, if_neg (Nat.succ_ne_zero _),
      Nat.mul_mod_right, Nat.add_zero, hlevel, Nat.cast_succ, ← add_assoc,
      zpow_add_one₀ two_ne_zero]
    push_cast
    ring

/-- The step from a point to the next is one last place. -/
theorem point_succ (magnitude : Nat) :
    format.point (magnitude + 1) = format.point magnitude + 2 ^ format.exponentAt magnitude := by
  have hleading : format.level magnitude = 0 ∨
      format.leadingWeight ≤ format.significandAt magnitude + 1 :=
    (level_eq_zero_or_le_significandAt magnitude).imp_right Nat.le_succ_of_le
  have hnext := point_level_add hleading (significandAt_lt magnitude)
  rw [← Nat.add_assoc, level_add_significandAt] at hnext
  rw [hnext, point, exponentAt]
  push_cast
  ring

theorem point_strictMono : StrictMono format.point := by
  refine strictMono_nat_of_lt_succ fun magnitude => ?_
  have hstep := two_zpow_pos (format.exponentAt magnitude)
  rw [point_succ]
  linarith

theorem point_zero : format.point 0 = 0 := by
  rw [point, significandAt, Nat.zero_div, if_pos rfl, Nat.cast_zero, zero_mul]

theorem exists_point_eq_places (significand : Nat) (places : Nat)
    (hle : significand ≤ 2 * format.leadingWeight) :
    ∃ magnitude, format.point magnitude = significand * 2 ^ (format.leastExponent + places) := by
  induction places generalizing significand with
  | zero => exact ⟨_, point_level_add (.inl rfl) hle⟩
  | succ places ih =>
    obtain hsmall | hfull := Nat.lt_or_ge significand format.leadingWeight
    · obtain ⟨magnitude, hmagnitude⟩ := ih (2 * significand) (by omega)
      refine ⟨magnitude, ?_⟩
      rw [hmagnitude, Nat.cast_succ, ← add_assoc, zpow_add_one₀ two_ne_zero]
      push_cast
      ring
    · exact ⟨_, point_level_add (.inr hfull) hle⟩

/-- Every multiple of a power of two that has the precision of the format, and is not finer than
    its least place, is a point. -/
theorem exists_point_eq {significand : Nat} (hle : significand ≤ 2 * format.leadingWeight)
    {exponent : ℤ} (hexponent : format.leastExponent ≤ exponent) :
    ∃ magnitude, format.point magnitude = significand * 2 ^ exponent := by
  obtain ⟨places, hplaces⟩ := Int.eq_ofNat_of_zero_le (sub_nonneg.mpr hexponent)
  obtain ⟨magnitude, hmagnitude⟩ := exists_point_eq_places significand places hle
  exact ⟨magnitude, by rw [hmagnitude, ← hplaces, add_sub_cancel]⟩

/-- The infinities are the next place after those of the highest level, which is not the lowest
    one. -/
theorem Regular.infinity_eq {format : Format} (hformat : format.Regular) :
    ∃ levels : Nat, format.infinity =
        (levels + 1) * format.leadingWeight + format.leadingWeight ∧
      format.leastExponent + levels = (format.overflowExponent : ℤ) - format.precision := by
  obtain ⟨bits, hbits⟩ := Nat.exists_eq_add_of_le' hformat.two_le_exponentBits
  have hfields : Nat.pow 2 format.exponentBits = 2 * Nat.pow 2 (bits + 1) := by
    rw [hbits, Nat.pow_eq, Nat.pow_eq, ← pow_succ']
  have hbias : 2 ≤ Nat.pow 2 (bits + 1) := by
    rw [Nat.pow_eq, pow_succ]
    exact Nat.le_mul_of_pos_left 2 (Nat.two_pow_pos bits)
  have hexponentBits : format.exponentBits - 1 = bits + 1 := by omega
  refine ⟨2 * Nat.pow 2 (bits + 1) - 3, ?_, ?_⟩
  · have hpred : 2 * Nat.pow 2 (bits + 1) - 1 = 2 * Nat.pow 2 (bits + 1) - 3 + 1 + 1 := by omega
    rw [infinity, hfields, hpred, Nat.add_mul _ 1, Nat.one_mul]
  · rw [leastExponent, overflowExponent, hexponentBits]
    omega

theorem Regular.infinity_pos {format : Format} (hformat : format.Regular) : 0 < format.infinity := by
  obtain ⟨levels, hinfinity, -⟩ := hformat.infinity_eq
  rw [hinfinity]
  exact Nat.add_pos_right _ format.leadingWeight_pos

/-- Infinity has the place of the least power of two that is too large to be finite. -/
theorem point_infinity (hformat : format.Regular) :
    format.point format.infinity = 2 ^ (format.overflowExponent : ℤ) := by
  obtain ⟨levels, hinfinity, hlevels⟩ := hformat.infinity_eq
  have hle : format.leadingWeight ≤ 2 * format.leadingWeight := by omega
  rw [hinfinity, point_level_add (.inr le_rfl) hle, hformat.leadingWeight_eq_zpow,
    ← zpow_add₀ two_ne_zero]
  congr 1
  omega

/-- The last place of the largest finite value. -/
theorem Regular.exponentAt_largest {format : Format} (hformat : format.Regular) :
    format.exponentAt (format.infinity - 1) =
      (format.overflowExponent : ℤ) - format.precision := by
  obtain ⟨levels, hinfinity, hlevels⟩ := hformat.infinity_eq
  have hweight := format.leadingWeight_pos
  have hplace : format.infinity - 1 =
      (format.leadingWeight - 1) + format.leadingWeight * (levels + 1) := by
    rw [hinfinity, Nat.mul_comm]
    omega
  rw [exponentAt, level, hplace, Nat.add_mul_div_left _ _ hweight,
    Nat.div_eq_of_lt (Nat.sub_one_lt_of_lt hweight), Nat.zero_add, Nat.add_sub_cancel, hlevels]

/-- Where a cell begins: halfway from the point before, and at zero for the first cell. -/
def bound (format : Format) : Nat → ℚ
  | 0 => 0
  | magnitude + 1 => (format.point magnitude + format.point (magnitude + 1)) / 2

theorem bound_succ (magnitude : Nat) :
    format.bound (magnitude + 1) = (format.point magnitude + format.point (magnitude + 1)) / 2 :=
  rfl

theorem point_lt_bound_succ (magnitude : Nat) :
    format.point magnitude < format.bound (magnitude + 1) := by
  have hnext : format.point magnitude < format.point (magnitude + 1) :=
    point_strictMono (Nat.lt_succ_self magnitude)
  rw [bound_succ]
  linarith

theorem bound_lt_point {magnitude : Nat} (hpos : 0 < magnitude) :
    format.bound magnitude < format.point magnitude := by
  obtain ⟨before, rfl⟩ := Nat.exists_eq_succ_of_ne_zero hpos.ne'
  have hnext : format.point before < format.point (before + 1) :=
    point_strictMono (Nat.lt_succ_self before)
  rw [bound_succ]
  linarith

theorem bound_le_point : ∀ magnitude, format.bound magnitude ≤ format.point magnitude
  | 0 => point_zero.ge
  | magnitude + 1 => (bound_lt_point magnitude.succ_pos).le

theorem bound_strictMono : StrictMono format.bound :=
  strictMono_nat_of_lt_succ fun magnitude =>
    (bound_le_point magnitude).trans_lt (point_lt_bound_succ magnitude)

theorem bound_succ_eq_add (magnitude : Nat) : format.bound (magnitude + 1) =
    format.point magnitude + 2 ^ (format.exponentAt magnitude - 1) := by
  rw [bound_succ, point_succ, two_zpow_eq_double (format.exponentAt magnitude)]
  ring

/-- The middle above a point is an odd number of halves of its last place. -/
theorem bound_succ_eq_mul (magnitude : Nat) : format.bound (magnitude + 1) =
    (2 * format.significandAt magnitude + 1 : Nat) * 2 ^ (format.exponentAt magnitude - 1) := by
  rw [bound_succ_eq_add, point, two_zpow_eq_double (format.exponentAt magnitude)]
  push_cast
  ring

theorem level_mono : Monotone format.level := fun _ _ hle =>
  Nat.sub_le_sub_right (Nat.div_le_div_right hle) 1

theorem exponentAt_mono {magnitude other : Nat} (hle : magnitude ≤ other) :
    format.exponentAt magnitude ≤ format.exponentAt other :=
  Int.add_le_add_left (Int.ofNat_le.mpr (level_mono hle)) _

/-- Half of the least size is where sizes begin that are not rounded to zero. -/
theorem bound_one : format.bound 1 = 2 ^ (format.leastExponent - 1) := by
  have hlevel : format.exponentAt 0 = format.leastExponent := by
    rw [exponentAt, level, Nat.zero_div, Nat.zero_sub, Nat.cast_zero, add_zero]
  rw [bound_succ, point_succ, point_zero, hlevel, zpow_sub_one₀ two_ne_zero]
  ring

/-- A number lies in the cell of a magnitude, so that no point is nearer to it. An end belongs to
    the one of its two cells whose magnitude is even. -/
structure RoundsTo (format : Format) (number : ℚ) (magnitude : Nat) : Prop where
  bound_le : format.bound magnitude ≤ number
  le_bound : number ≤ format.bound (magnitude + 1)
  even : number = format.bound magnitude ∨ number = format.bound (magnitude + 1) → Even magnitude

section Odd

variable (hformat : format.Regular) {magnitude : Nat} (hodd : Odd magnitude)
include hformat hodd

theorem odd_significandAt : Odd (format.significandAt magnitude) := by
  have hsum : format.level magnitude * format.leadingWeight + format.significandAt magnitude =
      magnitude := level_add_significandAt magnitude
  rw [← hsum] at hodd
  exact (Nat.odd_add'.mp hodd).mpr (hformat.even_leadingWeight.mul_left _)

/-- Around an odd magnitude the last place does not change. -/
theorem point_pred_of_odd : format.point (magnitude - 1) =
    format.point magnitude - 2 ^ format.exponentAt magnitude := by
  obtain ⟨half, hhalf⟩ := odd_significandAt hformat hodd
  have hsum : format.level magnitude * format.leadingWeight + format.significandAt magnitude =
      magnitude := level_add_significandAt magnitude
  have hlt : format.significandAt magnitude < 2 * format.leadingWeight := significandAt_lt magnitude
  have hleading : format.level magnitude = 0 ∨
      format.leadingWeight ≤ format.significandAt magnitude - 1 := by
    refine (level_eq_zero_or_le_significandAt magnitude).imp_right fun hle => ?_
    obtain ⟨halfWeight, hweight⟩ := hformat.even_leadingWeight
    omega
  have hpred : magnitude - 1 = format.level magnitude * format.leadingWeight +
      (format.significandAt magnitude - 1) := by
    rw [← Nat.add_sub_assoc (by omega), hsum]
  rw [hpred, point_level_add hleading (by omega), point, exponentAt, Nat.cast_pred (by omega)]
  ring

/-- So the middle below its point is half a last place away. -/
theorem bound_of_odd_eq_sub : format.bound magnitude =
    format.point magnitude - 2 ^ (format.exponentAt magnitude - 1) := by
  have hpred := point_pred_of_odd hformat hodd
  obtain ⟨before, rfl⟩ := Nat.exists_eq_succ_of_ne_zero hodd.pos.ne'
  rw [Nat.succ_sub_one, two_zpow_eq_double] at hpred
  rw [Nat.succ_eq_add_one, bound_succ, hpred]
  ring

/-- It is an odd number of halves of the last place, too. -/
theorem bound_of_odd_eq_mul : format.bound magnitude =
    (2 * (format.significandAt magnitude - 1) + 1 : Nat) * 2 ^ (format.exponentAt magnitude - 1) := by
  have hpos := (odd_significandAt hformat hodd).pos
  rw [bound_of_odd_eq_sub hformat hodd, point, two_zpow_eq_double (format.exponentAt magnitude)]
  push_cast [Nat.cast_pred hpos]
  ring

end Odd

namespace RoundsTo

variable {number other : ℚ} {magnitude place : Nat}

/-- It is enough to know at each end whether it is met, and there that the magnitude is even. -/
theorem of_ends
    (hlow : format.bound magnitude < number ∨ format.bound magnitude = number ∧ Even magnitude)
    (hhigh : number < format.bound (magnitude + 1) ∨
      number = format.bound (magnitude + 1) ∧ Even magnitude) :
    format.RoundsTo number magnitude where
  bound_le := hlow.elim le_of_lt fun h => h.1.le
  le_bound := hhigh.elim le_of_lt fun h => h.1.le
  even := by
    rintro (hmeet | hmeet)
    · exact hlow.elim (fun h => absurd hmeet h.ne') And.right
    · exact hhigh.elim (fun h => absurd hmeet h.ne) And.right

theorem of_interior (hlow : format.bound magnitude < number)
    (hhigh : number < format.bound (magnitude + 1)) : format.RoundsTo number magnitude :=
  of_ends (.inl hlow) (.inl hhigh)

/-- A number that is not in the cell and not above it is below it. -/
theorem le_bound_of_not (hnot : ¬ format.RoundsTo number magnitude)
    (hhigh : number < format.bound (magnitude + 1)) : number ≤ format.bound magnitude :=
  not_lt.mp fun hlow => hnot (of_interior hlow hhigh)

/-- A number that is not in the cell and not below it is above it. -/
theorem bound_le_of_not (hnot : ¬ format.RoundsTo number magnitude)
    (hlow : format.bound magnitude < number) : format.bound (magnitude + 1) ≤ number :=
  not_lt.mp fun hhigh => hnot (of_interior hlow hhigh)

/-- Every point is in its own cell. -/
theorem point (magnitude : Nat) : format.RoundsTo (format.point magnitude) magnitude where
  bound_le := bound_le_point magnitude
  le_bound := (point_lt_bound_succ magnitude).le
  even := by
    rintro (hlow | hhigh)
    · cases magnitude with
      | zero => exact Even.zero
      | succ magnitude => exact absurd hlow (bound_lt_point magnitude.succ_pos).ne'
    · exact absurd hhigh (point_lt_bound_succ magnitude).ne

/-- Larger numbers do not round to smaller magnitudes. Cells that follow one another share an end
    at most, and of two that follow one another only one is even. -/
theorem mono (hnumber : format.RoundsTo number magnitude) (hother : format.RoundsTo other place)
    (hle : number ≤ other) : magnitude ≤ place := by
  by_contra hlt
  rw [not_le] at hlt
  have hends : format.bound (place + 1) ≤ format.bound magnitude := bound_strictMono.monotone hlt
  have hsame : format.bound (place + 1) = format.bound magnitude :=
    hends.antisymm (hnumber.bound_le.trans (hle.trans hother.le_bound))
  obtain rfl : place + 1 = magnitude := bound_strictMono.injective hsame
  have hplace : Even place :=
    hother.even (.inr (hother.le_bound.antisymm (hnumber.bound_le.trans hle)))
  have hnext : Even (place + 1) :=
    hnumber.even (.inl ((hle.trans hother.le_bound).antisymm hnumber.bound_le))
  exact Nat.even_add_one.mp hnext hplace

theorem le_of_point_le (hnumber : format.RoundsTo number magnitude)
    (hle : format.point place ≤ number) : place ≤ magnitude :=
  (RoundsTo.point place).mono hnumber hle

theorem le_of_le_point (hnumber : format.RoundsTo number magnitude)
    (hle : number ≤ format.point place) : magnitude ≤ place :=
  hnumber.mono (RoundsTo.point place) hle

/-- A number in a cell is within half a last place of the point. -/
theorem abs_sub_point_le (hnumber : format.RoundsTo number magnitude) :
    |number - format.point magnitude| ≤ 2 ^ (format.exponentAt magnitude - 1) := by
  obtain ⟨hlow, hhigh, -⟩ := hnumber
  rw [bound_succ_eq_add] at hhigh
  rw [abs_le]
  refine ⟨?_, by linarith⟩
  cases magnitude with
  | zero =>
    have hunit := two_zpow_pos (format.exponentAt 0 - 1)
    have hzero : format.bound 0 = 0 := rfl
    rw [point_zero]
    linarith
  | succ before =>
    have hstep : (2 : ℚ) ^ format.exponentAt before ≤ 2 ^ format.exponentAt (before + 1) :=
      zpow_le_zpow_right₀ one_le_two (exponentAt_mono (Nat.le_succ before))
    rw [two_zpow_eq_double, two_zpow_eq_double (format.exponentAt (before + 1))] at hstep
    rw [point_succ, two_zpow_eq_double (format.exponentAt before)]
    rw [bound_succ_eq_add] at hlow
    linarith

theorem eq_zero_of_lt (hnumber : format.RoundsTo number magnitude) (hlt : number < format.bound 1) :
    magnitude = 0 := by
  by_contra hpos
  have hbound : format.bound 1 ≤ format.bound magnitude :=
    bound_strictMono.monotone (Nat.one_le_iff_ne_zero.mpr hpos)
  exact absurd (hbound.trans hnumber.bound_le) (not_le.mpr hlt)

theorem unique (hnumber : format.RoundsTo number magnitude) (hplace : format.RoundsTo number place) :
    magnitude = place :=
  (hnumber.mono hplace le_rfl).antisymm (hplace.mono hnumber le_rfl)

end RoundsTo

end Format

end InterpreterCore.Binary
