import InterpreterCore.Binary.Bits
import InterpreterCore.Proofs.Binary.Number

namespace InterpreterCore.Binary

open Format

theorem exponentAt_single (magnitude : Nat) :
    single.exponentAt magnitude = (single.level magnitude : Nat) - 149 := by
  rw [exponentAt, show single.leastExponent = -149 by decide]
  ring

section Double

variable (magnitude : Nat)

theorem significandAt_single_lt : 2 * single.significandAt magnitude + 1 < 33554432 := by
  have hlt : single.significandAt magnitude < 2 * single.leadingWeight := significandAt_lt magnitude
  rw [show single.leadingWeight = 8388608 from rfl] at hlt
  omega

/-- The 32-bit values are doubles. -/
theorem exists_point_double_eq_point : ∃ place, double.point place = single.point magnitude := by
  have hlt := significandAt_single_lt magnitude
  refine exists_point_eq ?_ ?_
  · rw [show double.leadingWeight = 4503599627370496 from rfl]
    omega
  · rw [exponentAt_single, show double.leastExponent = -1074 by decide]
    omega

/-- So are the middles between them. -/
theorem exists_point_double_eq_bound : ∃ place, double.point place = single.bound magnitude := by
  cases magnitude with
  | zero => exact ⟨0, point_zero⟩
  | succ magnitude =>
    have hlt := significandAt_single_lt magnitude
    rw [bound_succ_eq_mul]
    refine exists_point_eq ?_ ?_
    · rw [show double.leadingWeight = 4503599627370496 from rfl]
      omega
    · rw [exponentAt_single, show double.leastExponent = -1074 by decide]
      omega

end Double

/-- The doubles that are finite 32-bit values are finite. -/
theorem lt_infinity_of_point_eq {magnitude place : Nat} (hlt : magnitude < single.infinity)
    (hplace : double.point place = single.point magnitude) : place < double.infinity := by
  have hinfinities : single.point single.infinity < double.point double.infinity := by
    rw [point_infinity regular_single, point_infinity regular_double]
    exact zpow_lt_zpow_right₀ one_lt_two (by decide)
  have hpoints : double.point place < double.point double.infinity :=
    hplace.trans_lt ((point_strictMono hlt).trans hinfinities)
  exact point_strictMono.lt_iff_lt.mp hpoints

section Cell

variable {magnitude place : Nat} {number : ℚ} (hsingle : single.RoundsTo number magnitude)
  (hdouble : double.RoundsTo number place)
include hsingle hdouble

/-- A number and the double nearest to it are in one 32-bit cell, ends included. -/
theorem point_double_mem_cell :
    single.bound magnitude ≤ double.point place ∧
      double.point place ≤ single.bound (magnitude + 1) := by
  obtain ⟨low, hlow⟩ := exists_point_double_eq_bound magnitude
  obtain ⟨high, hhigh⟩ := exists_point_double_eq_bound (magnitude + 1)
  rw [← hlow, ← hhigh]
  exact ⟨point_strictMono.monotone (hdouble.le_of_point_le (hlow.trans_le hsingle.bound_le)),
    point_strictMono.monotone (hdouble.le_of_le_point (hsingle.le_bound.trans hhigh.ge))⟩

end Cell

/-- A number that rounds as a double to a 32-bit value rounds to it also as a 32-bit value: its
    double is no middle, so both are inside the cell. -/
theorem roundsTo_of_double {magnitude place : Nat} {number : ℚ}
    (hdouble : double.RoundsTo number place)
    (hplace : double.point place = single.point magnitude) : single.RoundsTo number magnitude := by
  obtain ⟨other, hother⟩ := exists_roundsTo regular_single hdouble.size_nonneg
  obtain ⟨hlow, hhigh⟩ := point_double_mem_cell hother hdouble
  rw [hplace] at hlow hhigh
  have hbelow : single.bound other < single.bound (magnitude + 1) :=
    hlow.trans_lt (point_lt_bound_succ magnitude)
  have habove : single.bound magnitude ≤ single.bound (other + 1) :=
    (bound_le_point magnitude).trans hhigh
  have hle : other ≤ magnitude := Nat.le_of_lt_succ (bound_strictMono.lt_iff_lt.mp hbelow)
  have hge : magnitude ≤ other := by
    by_contra hnot
    have hpos : 0 < magnitude := by omega
    have hnext : single.bound (other + 1) ≤ single.bound magnitude :=
      bound_strictMono.monotone (Nat.lt_of_not_le hnot)
    exact absurd ((bound_lt_point hpos).trans_le hhigh) (not_lt.mpr hnext)
  obtain rfl : other = magnitude := hle.antisymm hge
  exact hother

theorem Rounds.of_double {a : ℚ} {x : Single} (hrounds : Rounds .double a x.number) :
    Rounds .single a x.number := by
  generalize hnumber : x.number = number at hrounds
  obtain @⟨negative, size, place, hrounds⟩ := hrounds
  have hplace : double.point place = single.point x.magnitude := by
    rw [← abs_number, hnumber, abs_withSign negative (point_nonneg place)]
  rw [hplace]
  exact .point negative (roundsTo_of_double hrounds hplace)

/-- What a place rounds to as a double, where that is the place of a 32-bit value, it rounds to also
    as a 32-bit value. -/
theorem Line.Rounds.of_double {a : Line} {x : Single} (hrounds : Line.Rounds .double a x.place) :
    Line.Rounds .single a x.place := by
  generalize hplace : x.place = place at hrounds
  cases hrounds with
  | bot => exact .bot
  | top => exact .top
  | number hrounds =>
    cases hfinite : x.isFinite with
    | true =>
      rw [place_of_finite hfinite] at hplace
      obtain rfl := Line.ofRat_inj.mp hplace
      exact .number hrounds.of_double
    | false =>
      rw [place_of_infinite hfinite] at hplace
      cases hnegative : x.negative <;> rw [hnegative] at hplace
      · exact absurd hplace (Line.ofRat_lt_top _).ne'
      · exact absurd hplace (Line.bot_lt_ofRat _).ne

section Widened

variable {x : Single}

theorem convert_double_of_finite (hfinite : x.isFinite = true) :
    (x.convert .double).isFinite = true ∧ (x.convert .double).number = x.number := by
  obtain ⟨place, hplace⟩ := exists_point_double_eq_point x.magnitude
  have hlt := lt_infinity_of_point_eq (magnitude_lt_infinity hfinite) hplace
  have hconvert : x.convert .double = saturating .double x.negative place := by
    refine convert_eq_saturating hfinite regular_double ?_
    rw [← hplace]
    exact .point place
  rw [hconvert, number_saturating _ hlt, hplace, isFinite, magnitude_saturating _ hlt]
  exact ⟨decide_eq_true hlt, rfl⟩

/-- Widening keeps the number of a finite value. -/
theorem number_convert_double (hfinite : x.isFinite = true) :
    (x.convert .double).number = x.number := (convert_double_of_finite hfinite).2

theorem convert_double_of_infinite (hnumber : x.isNaN = false) (hfinite : x.isFinite = false) :
    x.convert .double = infinite .double x.negative := by
  have hinfinite : x.isInfinite = true := by
    rw [isFinite_eq, hnumber] at hfinite
    simpa using hfinite
  rw [convert, hnumber, hinfinite]
  rfl

theorem isFinite_convert_double (x : Single) : (x.convert .double).isFinite = x.isFinite := by
  cases hfinite : x.isFinite with
  | true => exact (convert_double_of_finite hfinite).1
  | false =>
    cases hnumber : x.isNaN with
    | false =>
      rw [convert_double_of_infinite hnumber hfinite]
      cases x.negative <;> decide
    | true =>
      rw [convert, if_pos hnumber]
      decide

section Place

variable (hnumber : x.isNaN = false)
include hnumber

/-- Widening keeps the place of a number. -/
theorem place_convert_double : (x.convert .double).place = x.place := by
  cases hfinite : x.isFinite with
  | true =>
    obtain ⟨hwide, hsame⟩ := convert_double_of_finite hfinite
    rw [place_of_finite hwide, place_of_finite hfinite, hsame]
  | false =>
    have hwide : (x.convert .double).isFinite = false := (isFinite_convert_double x).trans hfinite
    rw [place_of_infinite hwide, place_of_infinite hfinite,
      convert_double_of_infinite hnumber hfinite]
    rfl

theorem Line.Rounds.double_place : Line.Rounds .double x.place x.place := by
  have hrounds := Line.Rounds.place (x.convert .double)
  rwa [place_convert_double hnumber] at hrounds

variable {a p q : Line} (hdouble : Line.Rounds .double a p) (hsingle : Line.Rounds .single a q)
include hdouble hsingle

/-- A number that is at most a 32-bit value as a double is at most that as a 32-bit value. -/
theorem Line.Rounds.single_le (hle : p ≤ x.place) : q ≤ x.place := by
  obtain hbelow | habove := le_or_gt a x.place
  · exact hsingle.mono (.place x) hbelow
  · -- Rounding down took the number just to the 32-bit value.
    obtain rfl : p = x.place := hle.antisymm ((double_place hnumber).mono hdouble habove.le)
    exact hsingle.mono hdouble.of_double le_rfl

theorem Line.Rounds.le_single (hle : x.place ≤ p) : x.place ≤ q := by
  obtain hbelow | habove := le_or_gt x.place a
  · exact (Line.Rounds.place x).mono hsingle hbelow
  · obtain rfl : p = x.place := (hdouble.mono (double_place hnumber) habove.le).antisymm hle
    exact hdouble.of_double.mono hsingle le_rfl

end Place

end Widened

end InterpreterCore.Binary
