import InterpreterCore.Proofs.Binary.Nearest
import InterpreterCore.Proofs.Binary.Widening
import Mathlib.Order.Compare
import Mathlib.Order.Monotone.Odd
import Mathlib.Order.WithBot

namespace InterpreterCore.Binary

open Format

variable {format : Format}

/-- A size with a sign. -/
def withSign (negative : Bool) (size : ℚ) : ℚ := if negative then -size else size

/-- The exact number that a finite value is. -/
def number (x : Binary format) : ℚ := withSign x.negative (x.significand * 2 ^ x.exponent)

/-- The rationals with both ends. -/
abbrev Line : Type := WithBot (WithTop ℚ)

/-- A rational as a place on the line. -/
def Line.ofRat (number : ℚ) : Line := ((number : WithTop ℚ) : WithBot (WithTop ℚ))

/-- The place of a value on the line. Only values that are not numbers have none, and nothing is
    said about what is given for them. -/
def place (x : Binary format) : Line :=
  if x.isFinite then .ofRat x.number else if x.negative then ⊥ else ⊤

theorem Line.ofRat_lt_ofRat {a b : ℚ} : Line.ofRat a < Line.ofRat b ↔ a < b := by
  rw [ofRat, ofRat, WithBot.coe_lt_coe, WithTop.coe_lt_coe]

theorem Line.ofRat_le_ofRat {a b : ℚ} : Line.ofRat a ≤ Line.ofRat b ↔ a ≤ b := by
  rw [ofRat, ofRat, WithBot.coe_le_coe, WithTop.coe_le_coe]

theorem Line.ofRat_inj {a b : ℚ} : Line.ofRat a = Line.ofRat b ↔ a = b := by
  rw [ofRat, ofRat, WithBot.coe_inj, WithTop.coe_inj]

theorem Line.bot_lt_ofRat (a : ℚ) : ⊥ < Line.ofRat a := WithBot.bot_lt_coe _

theorem Line.ofRat_lt_top (a : ℚ) : Line.ofRat a < ⊤ :=
  WithBot.coe_lt_coe.mpr (WithTop.coe_lt_top a)

theorem Line.compares_ofRat (m n : ℤ) :
    (Ord.compare m n).Compares (Line.ofRat m) (Line.ofRat n) := by
  cases hcompare : Ord.compare m n with
  | lt => exact Line.ofRat_lt_ofRat.mpr (Int.cast_lt.mpr (Int.compare_eq_lt.mp hcompare))
  | eq => exact congrArg (fun k : ℤ => Line.ofRat k) (Int.compare_eq_eq.mp hcompare)
  | gt => exact Line.ofRat_lt_ofRat.mpr (Int.cast_lt.mpr (Int.compare_eq_gt.mp hcompare))

/-- The size of a value is the point at its magnitude. -/
theorem point_magnitude (x : Binary format) :
    format.point x.magnitude = x.significand * 2 ^ x.exponent := rfl

theorem number_eq (x : Binary format) : x.number = withSign x.negative (format.point x.magnitude) :=
  rfl

namespace Format

theorem point_nonneg (magnitude : Nat) : 0 ≤ format.point magnitude := by
  rw [← point_zero]
  exact point_strictMono.monotone magnitude.zero_le

theorem point_pos {magnitude : Nat} (hpos : 0 < magnitude) : 0 < format.point magnitude := by
  rw [← point_zero]
  exact point_strictMono hpos

end Format

theorem abs_withSign (negative : Bool) {size : ℚ} (hsize : 0 ≤ size) :
    |withSign negative size| = size := by
  cases negative
  · exact abs_of_nonneg hsize
  · exact (abs_neg size).trans (abs_of_nonneg hsize)

theorem abs_number (x : Binary format) : |x.number| = format.point x.magnitude :=
  abs_withSign x.negative (point_nonneg _)

namespace Format

/-- The grid on both sides of zero. -/
def signedPoint (format : Format) (signed : ℤ) : ℚ :=
  withSign (signed < 0) (format.point signed.natAbs)

theorem signedPoint_neg (signed : ℤ) :
    format.signedPoint (-signed) = -format.signedPoint signed := by
  rw [signedPoint, signedPoint, Int.natAbs_neg]
  obtain hneg | rfl | hpos := lt_trichotomy signed 0
  · rw [decide_eq_true hneg, decide_eq_false (by omega)]
    exact (neg_neg _).symm
  · rw [Int.natAbs_zero, point_zero]
    exact neg_zero.symm
  · rw [decide_eq_false hpos.not_gt, decide_eq_true (by omega)]
    rfl

theorem signedPoint_lt_signedPoint {a b : ℤ} (hlt : a < b) :
    format.signedPoint a < format.signedPoint b := by
  refine strictMono_of_odd_strictMonoOn_nonneg signedPoint_neg (fun a ha b hb hlt => ?_) hlt
  obtain ⟨a, rfl⟩ := Int.eq_ofNat_of_zero_le ha
  obtain ⟨b, rfl⟩ := Int.eq_ofNat_of_zero_le hb
  exact point_strictMono (Int.ofNat_lt.mp hlt)

end Format

/-- A number is the point of its signed magnitude, so the numbers of a format have the order of their
    signed magnitudes. -/
theorem number_eq_signedPoint (x : Binary format) : x.number = format.signedPoint x.signed := by
  obtain ⟨negative, magnitude, hlt⟩ := x
  cases negative with
  | false => rfl
  | true =>
    have hsigned : (⟨true, magnitude, hlt⟩ : Binary format).signed = -(magnitude : ℤ) := rfl
    rw [hsigned, signedPoint_neg]
    rfl

section Place

variable {x y : Binary format}

theorem place_of_finite (hfinite : x.isFinite = true) : x.place = .ofRat x.number := if_pos hfinite

/-- A number that is not finite is at an end of the line. -/
theorem place_of_infinite (hfinite : x.isFinite = false) :
    x.place = if x.negative then ⊥ else ⊤ := by
  rw [place, hfinite, if_neg Bool.false_ne_true]

theorem signed_lt_infinity (hfinite : x.isFinite = true) :
    -(format.infinity : ℤ) < x.signed ∧ x.signed < format.infinity := by
  have hlt := magnitude_lt_infinity hfinite
  rw [signed]
  split <;> omega

theorem signed_of_infinite (hnumber : x.isNaN = false) (hfinite : x.isFinite = false) :
    x.signed = if x.negative then -(format.infinity : ℤ) else format.infinity := by
  have hle : ¬ format.infinity < x.magnitude := of_decide_eq_false hnumber
  have hge : ¬ x.magnitude < format.infinity := of_decide_eq_false hfinite
  have hmagnitude : x.magnitude = format.infinity := by omega
  rw [signed, hmagnitude]

/-- Values of smaller signed magnitude have smaller places. -/
theorem place_lt_place (hx : x.isNaN = false) (hy : y.isNaN = false) (hlt : x.signed < y.signed) :
    x.place < y.place := by
  cases hxFinite : x.isFinite <;> cases hyFinite : y.isFinite
  · rw [signed_of_infinite hx hxFinite, signed_of_infinite hy hyFinite] at hlt
    rw [place_of_infinite hxFinite, place_of_infinite hyFinite]
    cases hxNegative : x.negative <;> cases hyNegative : y.negative <;>
      rw [hxNegative, hyNegative] at hlt
    · exact absurd hlt (lt_irrefl _)
    · have hsigned : (format.infinity : ℤ) < -format.infinity := hlt
      omega
    · exact bot_lt_top
    · exact absurd hlt (lt_irrefl _)
  · have hbounds := signed_lt_infinity hyFinite
    rw [signed_of_infinite hx hxFinite] at hlt
    rw [place_of_infinite hxFinite, place_of_finite hyFinite]
    cases hxNegative : x.negative
    · rw [hxNegative, if_neg Bool.false_ne_true] at hlt
      omega
    · exact Line.bot_lt_ofRat _
  · have hbounds := signed_lt_infinity hxFinite
    rw [signed_of_infinite hy hyFinite] at hlt
    rw [place_of_finite hxFinite, place_of_infinite hyFinite]
    cases hyNegative : y.negative
    · exact Line.ofRat_lt_top _
    · rw [hyNegative, if_pos rfl] at hlt
      omega
  · rw [place_of_finite hxFinite, place_of_finite hyFinite, Line.ofRat_lt_ofRat,
      number_eq_signedPoint, number_eq_signedPoint]
    exact signedPoint_lt_signedPoint hlt

/-- Values of one signed magnitude, which both zeros have, are at one place. -/
theorem place_eq_place (hinfinity : 0 < format.infinity) (hx : x.isNaN = false)
    (hy : y.isNaN = false) (heq : x.signed = y.signed) : x.place = y.place := by
  cases hxFinite : x.isFinite <;> cases hyFinite : y.isFinite
  · rw [signed_of_infinite hx hxFinite, signed_of_infinite hy hyFinite] at heq
    rw [place_of_infinite hxFinite, place_of_infinite hyFinite]
    have hsign : x.negative = y.negative := by
      cases hxNegative : x.negative <;> cases hyNegative : y.negative <;>
        simp only [hxNegative, hyNegative, if_true, Bool.false_eq_true, if_false] at heq ⊢ <;> omega
    rw [hsign]
  · have hbounds := signed_lt_infinity hyFinite
    rw [signed_of_infinite hx hxFinite] at heq
    split at heq <;> omega
  · have hbounds := signed_lt_infinity hxFinite
    rw [signed_of_infinite hy hyFinite] at heq
    split at heq <;> omega
  · rw [place_of_finite hxFinite, place_of_finite hyFinite, number_eq_signedPoint,
      number_eq_signedPoint, heq]

/-- Numbers of one format compare as their places do. -/
theorem compares_place (hinfinity : 0 < format.infinity) {order : Ordering}
    (horder : x.compare? y = some order) : order.Compares x.place y.place := by
  have hnumbers : (!x.isNaN && !y.isNaN) = true := by
    rw [← isSome_compare?, horder]
    rfl
  obtain ⟨hx, hy⟩ := (Bool.and_eq_true _ _).mp hnumbers
  rw [Bool.not_eq_true'] at hx hy
  rw [compare?_of_number hx hy] at horder
  obtain rfl := Option.some.inj horder
  cases hcompare : Ord.compare x.signed y.signed with
  | lt => exact place_lt_place hx hy (Int.compare_eq_lt.mp hcompare)
  | eq => exact place_eq_place hinfinity hx hy (Int.compare_eq_eq.mp hcompare)
  | gt => exact place_lt_place hy hx (Int.compare_eq_gt.mp hcompare)

end Place

/-- A number is rounded to another one when that is the point of the cell that holds it, with the
    sign kept. -/
inductive Rounds (format : Format) : ℚ → ℚ → Prop where
  | point (negative : Bool) {size : ℚ} {magnitude : Nat} (hrounds : format.RoundsTo size magnitude) :
      Rounds format (withSign negative size) (withSign negative (format.point magnitude))

namespace Format.RoundsTo

variable {size : ℚ} {magnitude : Nat}

theorem size_nonneg (hrounds : format.RoundsTo size magnitude) : 0 ≤ size := by
  have hzero : format.bound 0 = 0 := rfl
  rw [← hzero]
  exact (bound_strictMono.monotone magnitude.zero_le).trans hrounds.bound_le

theorem eq_zero_of_nonpos (hrounds : format.RoundsTo size magnitude) (hsize : size ≤ 0) :
    magnitude = 0 := by
  refine Nat.le_zero.mp (hrounds.le_of_le_point ?_)
  rwa [point_zero]

end Format.RoundsTo

namespace Rounds

variable {a b p q : ℚ}

/-- Rounding keeps order, although two numbers may be rounded to one. -/
theorem mono (ha : Rounds format a p) (hb : Rounds format b q) (hle : a ≤ b) : p ≤ q := by
  obtain @⟨aNegative, aSize, aMagnitude, ha⟩ := ha
  obtain @⟨bNegative, bSize, bMagnitude, hb⟩ := hb
  cases aNegative <;> cases bNegative
  · exact point_strictMono.monotone (ha.mono hb hle)
  · -- Both sizes are zero.
    have hsizes : aSize ≤ -bSize := hle
    have haSize := ha.size_nonneg
    have hbSize := hb.size_nonneg
    rw [ha.eq_zero_of_nonpos (by linarith), hb.eq_zero_of_nonpos (by linarith)]
    show format.point 0 ≤ -format.point 0
    rw [point_zero, neg_zero]
  · exact (neg_nonpos.mpr (point_nonneg _)).trans (point_nonneg _)
  · exact neg_le_neg (point_strictMono.monotone (hb.mono ha (neg_le_neg_iff.mp hle)))

theorem unique (hp : Rounds format a p) (hq : Rounds format a q) : p = q :=
  (hp.mono hq le_rfl).antisymm (hq.mono hp le_rfl)

/-- The numbers of a format are kept. -/
theorem number (x : Binary format) : Rounds format x.number x.number :=
  .point x.negative (.point x.magnitude)

end Rounds

theorem number_saturating (negative : Bool) {magnitude : Nat} (hlt : magnitude < format.infinity) :
    (saturating format negative magnitude).number = withSign negative (format.point magnitude) := by
  rw [number_eq, magnitude_saturating negative hlt]
  rfl

/-- Rounding of places. The infinities are at the ends of every format. -/
inductive Line.Rounds (format : Format) : Line → Line → Prop where
  | bot : Rounds format ⊥ ⊥
  | top : Rounds format ⊤ ⊤
  | number {a p : ℚ} (hrounds : Binary.Rounds format a p) : Rounds format (.ofRat a) (.ofRat p)

namespace Line.Rounds

theorem mono {a b p q : Line} (ha : Rounds format a p) (hb : Rounds format b q) (hle : a ≤ b) :
    p ≤ q := by
  cases ha with
  | bot => exact bot_le
  | top =>
    cases hb with
    | bot => exact absurd hle bot_lt_top.not_ge
    | top => exact le_rfl
    | number => exact absurd hle (ofRat_lt_top _).not_ge
  | number ha =>
    cases hb with
    | bot => exact absurd hle (bot_lt_ofRat _).not_ge
    | top => exact le_top
    | number hb => exact ofRat_le_ofRat.mpr (ha.mono hb (ofRat_le_ofRat.mp hle))

/-- The places of a format are kept. -/
theorem place (x : Binary format) : Rounds format x.place x.place := by
  cases hfinite : x.isFinite with
  | true =>
    rw [place_of_finite hfinite]
    exact .number (.number x)
  | false =>
    rw [place_of_infinite hfinite]
    cases x.negative
    · exact .top
    · exact .bot

end Line.Rounds

theorem cast_eq_withSign (n : ℤ) : (n : ℚ) = withSign (n < 0) n.natAbs := by
  obtain hneg | hnonneg := lt_or_ge n 0
  · rw [decide_eq_true hneg, withSign, if_pos rfl, Nat.cast_natAbs, abs_of_neg hneg, Int.cast_neg,
      neg_neg]
  · rw [decide_eq_false hnonneg.not_gt, withSign, if_neg Bool.false_ne_true, Nat.cast_natAbs,
      abs_of_nonneg hnonneg]

section Integers

variable (hformat : format.Regular) (hreach : 63 < format.overflowExponent)
include hformat hreach

/-- The integers of the interpreted language are far from overflowing. -/
theorem lt_infinity_of_roundsTo {size magnitude : Nat} (hsize : size ≤ 9223372036854775808)
    (hrounds : format.RoundsTo size magnitude) : magnitude < format.infinity := by
  have hleast := hformat.leastExponent_nonpos
  have hweight := format.leadingWeight_pos
  obtain ⟨place, hplace⟩ : ∃ place, format.point place = (1 : Nat) * 2 ^ (63 : ℤ) :=
    exists_point_eq (by omega) (by omega)
  have hpower : (2 : ℚ) ^ (63 : ℤ) = (9223372036854775808 : Nat) := by norm_num
  rw [Nat.cast_one, one_mul, hpower] at hplace
  have hle : magnitude ≤ place :=
    hrounds.le_of_le_point (hplace.symm ▸ Nat.cast_le.mpr hsize)
  have hbelow : format.point place < format.point format.infinity := by
    rw [hplace, ← hpower, point_infinity hformat]
    exact zpow_lt_zpow_right₀ one_lt_two (by omega)
  exact hle.trans_lt (point_strictMono.lt_iff_lt.mp hbelow)

/-- An integer is converted to a finite value, which is the number that it is rounded to. -/
theorem ofInt_rounds (n : Int64) :
    (ofInt format n.toInt).isFinite = true ∧
      Rounds format n.toInt (ofInt format n.toInt).number := by
  obtain ⟨magnitude, hrounds, hnearest⟩ :=
    exists_nearest_eq hformat (n.toInt < 0) n.toInt.natAbs Nat.one_pos
  rw [Nat.cast_one, div_one] at hrounds
  have hsize : n.toInt.natAbs ≤ 9223372036854775808 := by
    have hlow := n.le_toInt
    have hhigh := n.toInt_lt
    omega
  have hlt := lt_infinity_of_roundsTo hformat hreach hsize hrounds
  rw [ofInt, hnearest, isFinite, magnitude_saturating _ hlt, number_saturating _ hlt]
  refine ⟨decide_eq_true hlt, ?_⟩
  rw [cast_eq_withSign]
  exact .point _ hrounds

theorem place_ofInt (n : Int64) :
    Line.Rounds format (.ofRat n.toInt) (ofInt format n.toInt).place := by
  obtain ⟨hfinite, hrounds⟩ := ofInt_rounds hformat hreach n
  rw [place_of_finite hfinite]
  exact .number hrounds

/-- Integers that do not need more digits than the format has are kept. -/
theorem place_ofInt_of_le {n : Int64} (hsmall : n.toInt.natAbs ≤ 2 * format.leadingWeight) :
    (ofInt format n.toInt).place = .ofRat n.toInt := by
  obtain ⟨magnitude, hmagnitude⟩ : ∃ magnitude, format.point magnitude =
      n.toInt.natAbs * 2 ^ (0 : ℤ) := exists_point_eq hsmall hformat.leastExponent_nonpos
  rw [zpow_zero, mul_one] at hmagnitude
  obtain ⟨hfinite, hrounds⟩ := ofInt_rounds hformat hreach n
  have hself : Rounds format n.toInt n.toInt := by
    rw [cast_eq_withSign, ← hmagnitude]
    exact .point _ (.point magnitude)
  rw [place_of_finite hfinite, hrounds.unique hself]

end Integers

end InterpreterCore.Binary
