import InterpreterCore.Binary.Rounding
import InterpreterCore.Proofs.Binary.Grid
import Mathlib.Algebra.Order.Field.Basic
import Mathlib.Tactic.FieldSimp
import Mathlib.Tactic.NormNum

namespace InterpreterCore.Binary

open Format

/-- A power with an integer exponent as a quotient of powers of naturals. -/
theorem zpow_eq_div {base : Nat} (hbase : 0 < base) (exponent : ℤ) :
    (base : ℚ) ^ exponent =
      (Nat.pow base exponent.toNat : Nat) / (Nat.pow base (-exponent).toNat : Nat) := by
  have hne : (base : ℚ) ≠ 0 := Nat.cast_ne_zero.mpr hbase.ne'
  have hsplit : exponent = (exponent.toNat : ℤ) - ((-exponent).toNat : ℤ) := by omega
  nth_rewrite 1 [hsplit]
  rw [zpow_sub₀ hne, zpow_natCast, zpow_natCast, Nat.pow_eq, Nat.pow_eq, Nat.cast_pow, Nat.cast_pow]

/-- A quotient is the whole number in it and a part below one. -/
theorem div_eq_whole_add_part (num : Nat) {den : Nat} (hden : 0 < den) :
    (num : ℚ) / den = (num / den : Nat) + (num % den : Nat) / den ∧
      0 ≤ ((num % den : Nat) : ℚ) / den ∧ ((num % den : Nat) : ℚ) / den < 1 := by
  have hpositive : (0 : ℚ) < den := Nat.cast_pos.mpr hden
  refine ⟨?_, div_nonneg (Nat.cast_nonneg _) hpositive.le, ?_⟩
  · have hexact : ((den * (num / den) + num % den : Nat) : ℚ) = num :=
      congrArg Nat.cast (Nat.div_add_mod num den)
    push_cast at hexact
    field_simp
    linarith
  · exact (div_lt_one hpositive).mpr (Nat.cast_lt.mpr (Nat.mod_lt num hden))

/-- A whole number nearest to a number, and even where two are equally near. -/
structure WholeNearest (number : ℚ) (whole : Nat) : Prop where
  le_half_above : 2 * (whole : ℚ) ≤ 2 * number + 1
  half_below_le : 2 * number ≤ 2 * whole + 1
  even : 2 * (whole : ℚ) = 2 * number + 1 ∨ 2 * number = 2 * whole + 1 → Even whole

namespace WholeNearest

variable {number : ℚ} {whole limit : Nat} (hwhole : WholeNearest number whole)
include hwhole

/-- Rounding does not pass whole numbers. -/
theorem le_of_lt (hlt : number < limit) : whole ≤ limit := by
  have hcast : (whole : ℚ) < (limit + 1 : Nat) := by
    push_cast
    linarith [hwhole.le_half_above]
  exact Nat.le_of_lt_succ (Nat.cast_lt.mp hcast)

theorem ge_of_le (hle : (limit : ℚ) ≤ number) : limit ≤ whole := by
  have hcast : (limit : ℚ) < (whole + 1 : Nat) := by
    push_cast
    linarith [hwhole.half_below_le]
  exact Nat.le_of_lt_succ (Nat.cast_lt.mp hcast)

end WholeNearest

theorem wholeNearest_roundQuotient (num : Nat) {den : Nat} (hden : 0 < den) :
    WholeNearest (num / den) (roundQuotient num den) := by
  have hpositive : (0 : ℚ) < den := Nat.cast_pos.mpr hden
  obtain ⟨hdivision, hnonneg, hsmall⟩ := div_eq_whole_add_part num hden
  rw [roundQuotient, hdivision]
  generalize hwhole : num / den = whole
  generalize hpart : ((num % den : Nat) : ℚ) / den = part at hsmall hnonneg
  have hhalf : 2 * part = (2 * (num % den) : Nat) / den := by
    rw [← hpart]
    push_cast
    ring
  split
  · rename_i hcompare
    have hbelow : 2 * part < 1 := by
      rw [hhalf, div_lt_one hpositive]
      exact Nat.cast_lt.mpr (Nat.compare_eq_lt.mp hcompare)
    refine ⟨by linarith, by linarith, ?_⟩
    rintro (hmeet | hmeet) <;> linarith
  · rename_i hcompare
    have habove : 1 < 2 * part := by
      rw [hhalf, one_lt_div hpositive]
      exact Nat.cast_lt.mpr (Nat.compare_eq_gt.mp hcompare)
    refine ⟨by push_cast; linarith, by push_cast; linarith, ?_⟩
    push_cast
    rintro (hmeet | hmeet) <;> linarith
  · rename_i hcompare
    have hmiddle : 2 * part = 1 := by
      rw [hhalf, Nat.compare_eq_eq.mp hcompare, div_self hpositive.ne']
    split
    · rename_i heven
      exact ⟨by linarith, by linarith, fun _ => Nat.even_iff.mpr heven⟩
    · rename_i hodd
      refine ⟨by push_cast; linarith, by push_cast; linarith, fun _ => ?_⟩
      exact Nat.even_add_one.mpr fun heven => hodd (Nat.even_iff.mp heven)

/-- Moving a power of the base across a quotient divides the quotient by it. -/
theorem scaled_div {base : Nat} (hbase : 0 < base) (num den : Nat) (exponent : ℤ) :
    ((num * Nat.pow base (-exponent).toNat : Nat) : ℚ) / (den * Nat.pow base exponent.toNat : Nat) =
      num / den / (base : ℚ) ^ exponent := by
  rw [zpow_eq_div hbase, div_div_div_eq, Nat.cast_mul, Nat.cast_mul]

theorem mul_pow_pos {den : Nat} (hden : 0 < den) {base : Nat} (hbase : 0 < base) (exponent : Nat) :
    0 < den * Nat.pow base exponent :=
  Nat.mul_pos hden (Nat.pow_pos hbase)

/-- A positive number lies between two powers of two that follow one another. -/
theorem log2_bounds {n : Nat} (hn : 0 < n) :
    (2 : ℚ) ^ (n.log2 : ℤ) ≤ n ∧ (n : ℚ) < 2 ^ ((n.log2 : ℤ) + 1) := by
  constructor
  · rw [zpow_natCast]
    exact_mod_cast Nat.log2_self_le hn.ne'
  · have hlt : n < 2 ^ (n.log2 + 1) := Nat.lt_log2_self
    exact_mod_cast hlt

/-- The exponent found for a quotient is that of the largest power of two not above it. -/
theorem quotientLog_bounds {num den : Nat} (hnum : 0 < num) (hden : 0 < den) :
    (2 : ℚ) ^ quotientLog num den ≤ num / den ∧ (num : ℚ) / den < 2 ^ (quotientLog num den + 1) := by
  have hpositive : (0 : ℚ) < den := Nat.cast_pos.mpr hden
  obtain ⟨hnumLow, hnumHigh⟩ := log2_bounds hnum
  obtain ⟨hdenLow, hdenHigh⟩ := log2_bounds hden
  rw [quotientLog]
  generalize hestimate : (num.log2 : ℤ) - den.log2 = estimate
  have hpower := two_zpow_pos estimate
  have hscaled : ((num * Nat.pow 2 (-estimate).toNat : Nat) : ℚ) /
      (den * Nat.pow 2 estimate.toNat : Nat) = num / den / 2 ^ estimate := by
    exact_mod_cast scaled_div two_pos num den estimate
  have hscale : (0 : ℚ) < (den * Nat.pow 2 estimate.toNat : Nat) :=
    Nat.cast_pos.mpr (mul_pow_pos hden two_pos _)
  split
  · rename_i hlt
    constructor
    · have hlow : (2 : ℚ) ^ (estimate - 1) * 2 ^ ((den.log2 : ℤ) + 1) ≤ num := by
        rw [← zpow_add₀ two_ne_zero, ← hestimate]
        convert hnumLow using 2
        ring
      rw [le_div_iff₀ hpositive]
      have hmul := mul_lt_mul_of_pos_left hdenHigh (two_zpow_pos (estimate - 1))
      exact hmul.le.trans hlow
    · rw [sub_add_cancel, ← div_lt_one hpower, ← hscaled, div_lt_one hscale]
      exact Nat.cast_lt.mpr hlt
  · rename_i hge
    constructor
    · rw [← one_le_div hpower, ← hscaled, one_le_div hscale]
      exact Nat.cast_le.mpr (Nat.not_lt.mp hge)
    · rw [div_lt_iff₀ hpositive]
      have hhigh : (2 : ℚ) ^ (estimate + 1) * 2 ^ (den.log2 : ℤ) = 2 ^ ((num.log2 : ℤ) + 1) := by
        rw [← zpow_add₀ two_ne_zero, ← hestimate]
        congr 1
        ring
      have hmul := mul_le_mul_of_nonneg_left hdenLow (two_zpow_pos (estimate + 1)).le
      exact hnumHigh.trans_le (hhigh ▸ hmul)

section Level

variable {format : Format} {level whole : Nat} {number : ℚ}
  (hleading : level = 0 ∨ (format.leadingWeight : ℚ) ≤ number)
  (hlt : number < 2 * format.leadingWeight) (hwhole : WholeNearest number whole)
include hleading hlt hwhole

/-- A number on the scale of a level is not below the cell of the nearest significand. With the
    least significand of a level other than the lowest, the number is not even below the point. -/
theorem bound_lt_or_eq_of_wholeNearest (hnonneg : 0 ≤ number) :
    format.bound (level * format.leadingWeight + whole) <
        number * 2 ^ (format.leastExponent + level) ∨
      format.bound (level * format.leadingWeight + whole) =
        number * 2 ^ (format.leastExponent + level) ∧ Even whole := by
  have hweight := format.leadingWeight_pos
  have hunit := two_zpow_pos (format.leastExponent + level)
  have hle : whole ≤ 2 * format.leadingWeight := hwhole.le_of_lt (by exact_mod_cast hlt)
  have hge : level = 0 ∨ format.leadingWeight ≤ whole := hleading.imp_right hwhole.ge_of_le
  have hpoint := point_level_add hge hle
  obtain ⟨hlow, -, htie⟩ := hwhole
  cases whole with
  | zero =>
    obtain rfl : level = 0 := by omega
    rw [Nat.zero_mul]
    obtain hzero | hpos := hnonneg.eq_or_lt
    · exact .inr ⟨by rw [← hzero, zero_mul]; rfl, Even.zero⟩
    · exact .inl (mul_pos hpos hunit)
  | succ before =>
    by_cases hbefore : level = 0 ∨ format.leadingWeight ≤ before
    · have hpointBefore := point_level_add hbefore (Nat.le_of_succ_le hle)
      rw [← Nat.add_assoc, bound_succ, hpointBefore, Nat.add_assoc, hpoint]
      push_cast at hlow htie ⊢
      obtain hless | hmeet := (show (before : ℚ) + 1 / 2 ≤ number by linarith).lt_or_eq
      · left
        nlinarith
      · exact .inr ⟨by rw [← hmeet]; ring, htie (.inl (by linarith))⟩
    · left
      obtain ⟨hlevel, hsmall⟩ := not_or.mp hbefore
      have hexact : ((before + 1 : Nat) : ℚ) ≤ number :=
        (Nat.cast_le.mpr (Nat.lt_of_not_le hsmall)).trans (hleading.resolve_left hlevel)
      have hpos : 0 < level * format.leadingWeight + (before + 1) :=
        Nat.add_pos_right _ (Nat.succ_pos before)
      refine (bound_lt_point hpos).trans_le ?_
      rw [hpoint]
      exact mul_le_mul_of_nonneg_right hexact hunit.le

/-- Nor is it above that cell. What rounds up to the next level is below its first point. -/
theorem lt_or_eq_bound_succ_of_wholeNearest :
    number * 2 ^ (format.leastExponent + level) <
        format.bound (level * format.leadingWeight + whole + 1) ∨
      number * 2 ^ (format.leastExponent + level) =
        format.bound (level * format.leadingWeight + whole + 1) ∧ Even whole := by
  have hunit := two_zpow_pos (format.leastExponent + level)
  have hle : whole ≤ 2 * format.leadingWeight := hwhole.le_of_lt (by exact_mod_cast hlt)
  have hge : level = 0 ∨ format.leadingWeight ≤ whole := hleading.imp_right hwhole.ge_of_le
  have hpoint := point_level_add hge hle
  obtain ⟨-, hhigh, htie⟩ := hwhole
  obtain hless | hfull := hle.lt_or_eq
  · have hpointNext := point_level_add (hge.imp_right Nat.le_succ_of_le) hless
    rw [bound_succ, hpoint, Nat.add_assoc, hpointNext]
    push_cast
    obtain hless | hmeet := (show number ≤ whole + 1 / 2 by linarith).lt_or_eq
    · left
      nlinarith
    · exact .inr ⟨by rw [hmeet]; ring, htie (.inr (by linarith))⟩
  · left
    refine lt_trans ?_ (point_lt_bound_succ _)
    rw [hpoint, hfull]
    push_cast
    exact mul_lt_mul_of_pos_right hlt hunit

/-- A number on the scale of a level rounds to the magnitude that the level and the nearest
    significand make. -/
theorem roundsTo_of_wholeNearest (hformat : format.Regular) (hnonneg : 0 ≤ number) :
    format.RoundsTo (number * 2 ^ (format.leastExponent + level))
      (level * format.leadingWeight + whole) := by
  have hparity : Even whole → Even (level * format.leadingWeight + whole) := fun heven =>
    (hformat.even_leadingWeight.mul_left level).add heven
  exact .of_ends
    ((bound_lt_or_eq_of_wholeNearest hleading hlt hwhole hnonneg).imp_right (.imp_right hparity))
    ((lt_or_eq_bound_succ_of_wholeNearest hleading hlt hwhole).imp_right (.imp_right hparity))

end Level

section Cell

variable {format : Format} (hformat : format.Regular)
include hformat

/-- A quotient is rounded to the magnitude whose cell holds it. -/
theorem exists_nearest_eq (negative : Bool) (num : Nat) {den : Nat} (hden : 0 < den) :
    ∃ magnitude, format.RoundsTo (num / den) magnitude ∧
      nearest format negative num den = saturating format negative magnitude := by
  obtain rfl | hnum := Nat.eq_zero_or_pos num
  · refine ⟨0, ?_, rfl⟩
    have hzero : format.RoundsTo (format.point 0) 0 := .point 0
    rwa [point_zero, ← zero_div (den : ℚ), ← Nat.cast_zero] at hzero
  rw [nearest, if_neg hnum.ne']
  obtain ⟨hlow, hhigh⟩ := quotientLog_bounds hnum hden
  generalize hexponent :
    max (quotientLog num den + 1 - format.precision) format.leastExponent = exponent
  have hlevel : format.leastExponent + (exponent - format.leastExponent).toNat = exponent := by
    omega
  have hunit := two_zpow_pos exponent
  have hweight := hformat.leadingWeight_eq_zpow
  have hscaled : ((num * Nat.pow 2 (-exponent).toNat : Nat) : ℚ) /
      (den * Nat.pow 2 exponent.toNat : Nat) = num / den / 2 ^ exponent := by
    exact_mod_cast scaled_div two_pos num den exponent
  have hwhole := wholeNearest_roundQuotient (num * Nat.pow 2 (-exponent).toNat)
    (mul_pow_pos hden two_pos exponent.toNat)
  rw [hscaled] at hwhole
  have hnonneg : 0 ≤ (num : ℚ) / den / 2 ^ exponent :=
    div_nonneg (div_nonneg (Nat.cast_nonneg _) (Nat.cast_nonneg _)) hunit.le
  have hlt : (num : ℚ) / den / 2 ^ exponent < 2 * format.leadingWeight := by
    rw [div_lt_iff₀ hunit, hweight, ← zpow_one_add₀ two_ne_zero, ← zpow_add₀ two_ne_zero]
    refine hhigh.trans_le (zpow_le_zpow_right₀ one_le_two ?_)
    omega
  have hleading : (exponent - format.leastExponent).toNat = 0 ∨
      (format.leadingWeight : ℚ) ≤ num / den / 2 ^ exponent := by
    obtain hbottom | hfull : exponent = format.leastExponent ∨
        (format.precision : ℤ) - 1 + exponent = quotientLog num den := by omega
    · exact .inl (by omega)
    · right
      rwa [hweight, le_div_iff₀ hunit, ← zpow_add₀ two_ne_zero, hfull]
  have hcell := roundsTo_of_wholeNearest hleading hlt hwhole hformat hnonneg
  rw [hlevel, div_mul_cancel₀ _ hunit.ne'] at hcell
  exact ⟨_, hcell, rfl⟩

/-- What a quotient is rounded to depends on its number alone. -/
theorem nearest_eq_saturating (negative : Bool) {num den magnitude : Nat} (hden : 0 < den)
    (hrounds : format.RoundsTo (num / den) magnitude) :
    nearest format negative num den = saturating format negative magnitude := by
  obtain ⟨other, hother, hnearest⟩ := exists_nearest_eq hformat negative num hden
  rw [hnearest, hother.unique hrounds]

/-- The cells cover all numbers that are not negative. -/
theorem exists_roundsTo {number : ℚ} (hnumber : 0 ≤ number) :
    ∃ magnitude, format.RoundsTo number magnitude := by
  obtain ⟨magnitude, hrounds, -⟩ :=
    exists_nearest_eq hformat false number.num.toNat number.den_pos
  have hnum : ((number.num.toNat : Nat) : ℚ) = number.num := by
    exact_mod_cast Int.toNat_of_nonneg (Rat.num_nonneg.mpr hnumber)
  rw [hnum, Rat.num_div_den] at hrounds
  exact ⟨magnitude, hrounds⟩

/-- A multiple of a power of two is rounded to the magnitude whose cell holds it. -/
theorem nearestScaled_eq_saturating (negative : Bool) {size magnitude : Nat} {exponent : ℤ}
    (hrounds : format.RoundsTo (size * 2 ^ exponent) magnitude) :
    nearestScaled format negative size exponent = saturating format negative magnitude := by
  refine nearest_eq_saturating hformat negative (Nat.pow_pos two_pos) ?_
  convert hrounds using 1
  have hpower := zpow_eq_div two_pos exponent
  rw [Nat.cast_ofNat] at hpower
  rw [hpower, Nat.cast_mul, mul_div_assoc]

end Cell

/-- Past the finite magnitudes there is only infinity. -/
theorem saturating_of_infinity_le {format : Format} (negative : Bool) {magnitude : Nat}
    (hle : format.infinity ≤ magnitude) :
    saturating format negative magnitude = infinite format negative := by
  simp only [infinite, saturating, Nat.min_eq_right hle, Nat.min_self]

theorem magnitude_saturating {format : Format} (negative : Bool) {magnitude : Nat}
    (hlt : magnitude < format.infinity) :
    (saturating format negative magnitude).magnitude = magnitude :=
  Nat.min_eq_left hlt.le

section Finite

variable {format : Format} {x : Binary format} (hfinite : x.isFinite = true)
include hfinite

theorem magnitude_lt_infinity : x.magnitude < format.infinity := of_decide_eq_true hfinite

theorem isNaN_of_finite : x.isNaN = false := decide_eq_false (magnitude_lt_infinity hfinite).not_gt

theorem isInfinite_of_finite : x.isInfinite = false :=
  beq_eq_false_iff_ne.mpr (magnitude_lt_infinity hfinite).ne

/-- Only the sign and the magnitude of a finite value saturate to it. -/
theorem saturating_eq_iff (negative : Bool) (magnitude : Nat) :
    saturating format negative magnitude = x ↔ negative = x.negative ∧ magnitude = x.magnitude := by
  have hlt := magnitude_lt_infinity hfinite
  have hsaturating : saturating format negative magnitude = x ↔
      negative = x.negative ∧ min magnitude format.infinity = x.magnitude := by
    cases x
    simp only [saturating, mk.injEq]
  rw [hsaturating]
  refine and_congr_right fun _ => ?_
  omega

/-- A finite value is converted to the magnitude whose cell in the other format holds it. -/
theorem convert_eq_saturating {target : Format} (htarget : target.Regular) {magnitude : Nat}
    (hrounds : target.RoundsTo (format.point x.magnitude) magnitude) :
    x.convert target = saturating target x.negative magnitude := by
  rw [convert, isNaN_of_finite hfinite, isInfinite_of_finite hfinite]
  exact nearestScaled_eq_saturating htarget x.negative hrounds

end Finite

end InterpreterCore.Binary
