import InterpreterCore.Proofs.Decimal.Narrowing
import InterpreterCore.Proofs.Decimal.Written
import InterpreterCore.Value.Coercion

namespace InterpreterCore

open Binary Binary.Format

namespace Cast

section Narrowed

variable {magnitude place : Nat} {number : ℚ} (hlt : magnitude < largestSingle.magnitude)
  (hsingle : single.RoundsTo number magnitude) (hdouble : double.RoundsTo number place)
include hlt hsingle hdouble

/-- A number that rounds to a float below the largest does not round to a double above it. -/
theorem le_largest_of_roundsTo {largest : Nat}
    (hlargest : double.point largest = single.point largestSingle.magnitude) : place ≤ largest := by
  refine hdouble.le_of_le_point (hsingle.le_bound.trans ((bound_le_point _).trans ?_))
  rw [hlargest]
  exact point_strictMono.monotone hlt

/-- So the double is in the range of the floats. -/
theorem exceedsSingle_saturating (negative : Bool) :
    place < double.infinity ∧ exceedsSingle (saturating .double negative place) = false := by
  obtain ⟨largest, hlargest⟩ := exists_point_double_eq_point largestSingle.magnitude
  have hfinite : largestSingle.isFinite = true := by decide
  have hle := le_largest_of_roundsTo hlt hsingle hdouble hlargest
  have hbounded := lt_infinity_of_point_eq (magnitude_lt_infinity hfinite) hlargest
  have hconvert : largestSingle.convert .double =
      saturating .double largestSingle.negative largest := by
    refine convert_eq_saturating hfinite regular_double ?_
    rw [← hlargest]
    exact .point largest
  have hplace : place < double.infinity := hle.trans_lt hbounded
  refine ⟨hplace, ?_⟩
  rw [exceedsSingle, hconvert, magnitude_saturating _ hbounded, magnitude_saturating _ hplace,
    decide_eq_false hle.not_gt, Bool.and_false]

/-- The double nearest to a number is narrowed to the float in whose cell it is. -/
theorem doubleToFloat_saturating (negative : Bool)
    (hnarrowed : single.RoundsTo (double.point place) magnitude) :
    doubleToFloat (saturating .double negative place) = .ok (saturating .single negative magnitude) := by
  obtain ⟨hplace, hexceeds⟩ := exceedsSingle_saturating hlt hsingle hdouble negative
  have hmagnitude := magnitude_saturating negative hplace
  have hfinite : (saturating .double negative place).isFinite = true := by
    rw [isFinite, hmagnitude]
    exact decide_eq_true hplace
  rw [← hmagnitude] at hnarrowed
  rw [doubleToFloat, hexceeds, if_neg Bool.false_ne_true,
    convert_eq_saturating hfinite regular_single hnarrowed]
  rfl

end Narrowed

end Cast

namespace Value

theorem textToDouble_text_eq (x : Single) {y : Double}
    (hread : read? .double (Text.trim (x.write layout)) = some y) :
    Cast.textToDouble (float x).text = .ok y := by
  have htext : (float x).text.toList = x.write layout := String.toList_ofList
  rw [Cast.textToDouble, htext, hread]

/-- The text of a finite float spells the double nearest to the number that is written. -/
theorem textToDouble_text {x : Single} (hfinite : x.isFinite = true) {place : Nat}
    (hplace : Format.double.RoundsTo x.writtenDecimal.value place) :
    Cast.textToDouble (float x).text = .ok (saturating .double x.negative place) := by
  have hsize := leadingExponent_writtenDecimal_lt hfinite regular_single (by decide) (by decide)
  exact textToDouble_text_eq x (read?_trim_write hfinite regular_double layout hsize hplace)

/-- The float that the text of a float counts as. -/
def floatThroughText (x : Single) : Outcome Single :=
  (float x).toText >>= fun text => (string text).toFloat

/-- The text of a float counts as the float that the double it spells is narrowed to. -/
theorem floatThroughText_eq (x : Single) {y : Double}
    (hspells : Cast.textToDouble (float x).text = .ok y) :
    floatThroughText x = Cast.doubleToFloat y := by
  have htext : (float x).toText = .ok (float x).text := rfl
  have hfloat : ∀ text, (string text).toFloat = Cast.textToDouble text >>= Cast.doubleToFloat :=
    fun _ => rfl
  rw [floatThroughText, htext]
  dsimp only [bind, Except.bind]
  rw [hfloat, hspells]
  rfl

/-- Below the largest magnitude, and but for one, the text of a float gives the float back. -/
theorem floatThroughText_of_lt_largest {x : Single}
    (hlt : x.magnitude < Cast.largestSingle.magnitude) (hbeside : x.magnitude ≠ besideHalfway) :
    floatThroughText x = .ok x := by
  have hinfinity : x.magnitude < single.infinity := hlt.trans_le (Nat.min_le_right _ _)
  have hfinite : x.isFinite = true := decide_eq_true hinfinity
  obtain ⟨hrounds, hgrid⟩ := value_writtenDecimal hfinite regular_single
  obtain ⟨place, hplace⟩ := exists_roundsTo regular_double x.writtenDecimal.value_nonneg
  have hnarrowed := roundsTo_point_double hinfinity hbeside hrounds hplace hgrid
  have hself : saturating .single x.negative x.magnitude = x :=
    (saturating_eq_iff hfinite _ _).mpr ⟨rfl, rfl⟩
  rw [floatThroughText_eq x (textToDouble_text hfinite hplace),
    Cast.doubleToFloat_saturating hlt hrounds hplace x.negative hnarrowed, hself]

/-- The shortest decimals of the largest floats are past the range. -/
theorem floatThroughText_largest (negative : Bool) :
    floatThroughText (saturating .single negative Cast.largestSingle.magnitude) =
      .error (.invalidCast
        ((if negative then "-" else "") ++ "340282350000000000000000000000000000000") "a float") := by
  have hread : read? .double
      (Text.trim ((saturating .single negative Cast.largestSingle.magnitude).write layout)) =
        some (saturating .double negative 5183643170655547384) := by
    cases negative <;> decide +kernel
  have hexceeds : Cast.exceedsSingle (saturating .double negative 5183643170655547384) = true := by
    cases negative <;> decide +kernel
  have hquote : Cast.quoteDouble (saturating .double negative 5183643170655547384) =
      (if negative then "-" else "") ++ "340282350000000000000000000000000000000" := by
    cases negative <;> decide +kernel
  rw [floatThroughText_eq _ (textToDouble_text_eq _ hread), Cast.doubleToFloat, if_pos hexceeds, hquote]

/-- The shortest decimals of one more magnitude are nearer to the middle above it than doubles are to
    one another, and a middle goes to the even neighbour. -/
theorem floatThroughText_besideHalfway (negative : Bool) :
    floatThroughText (saturating .single negative besideHalfway) =
      .ok (saturating .single negative (besideHalfway + 1)) := by
  have hread : read? .double (Text.trim ((saturating .single negative besideHalfway).write layout)) =
      some (saturating .double negative 4230507875723640832) := by
    cases negative <;> decide +kernel
  have hexceeds : Cast.exceedsSingle (saturating .double negative 4230507875723640832) = false := by
    cases negative <;> decide +kernel
  have hnarrowed : (saturating .double negative 4230507875723640832).convert .single =
      saturating .single negative (besideHalfway + 1) := by
    cases negative <;> decide +kernel
  rw [floatThroughText_eq _ (textToDouble_text_eq _ hread), Cast.doubleToFloat, hexceeds, hnarrowed]
  rfl

/-- The text of a finite float counts as the float again, with two exceptions of either sign. The
    text of the largest float is refused, because it spells a double past the range of the floats.
    The text of one float counts as the next larger in size, because it spells a double halfway to
    it. -/
theorem float_text_counts_as_float {x : Single} (hfinite : x.isFinite = true) :
    (x.magnitude ≠ Cast.largestSingle.magnitude → x.magnitude ≠ besideHalfway →
      floatThroughText x = .ok x) ∧
    (x.magnitude = Cast.largestSingle.magnitude →
      floatThroughText x = .error (.invalidCast
        ((if x.negative then "-" else "") ++ "340282350000000000000000000000000000000") "a float")) ∧
    (x.magnitude = besideHalfway →
      floatThroughText x = .ok (saturating .single x.negative (besideHalfway + 1))) := by
  have hlt := magnitude_lt_infinity hfinite
  have hlargest : Cast.largestSingle.magnitude = single.infinity - 1 := by decide
  have hself : saturating .single x.negative x.magnitude = x :=
    (saturating_eq_iff hfinite _ _).mpr ⟨rfl, rfl⟩
  refine ⟨fun hne hbeside => ?_, fun hmax => ?_, fun hbeside => ?_⟩
  · exact floatThroughText_of_lt_largest (by omega) hbeside
  · rw [← floatThroughText_largest x.negative, ← hmax, hself]
  · rw [← floatThroughText_besideHalfway x.negative, ← hbeside, hself]

/-- The float nearest to zero on the negative side, whose text is -1e-45. -/
theorem float_text_counts_as_float_least :
    (saturating .single true 1).isFinite = true ∧
      floatThroughText (saturating .single true 1) = .ok (saturating .single true 1) :=
  ⟨by decide, (float_text_counts_as_float (by decide)).1 (by decide) (by decide)⟩

/-- The largest float and the float with the text 7.038531e-26 are finite, and their texts do not
    count as them. -/
theorem float_text_counts_as_other :
    Cast.largestSingle.isFinite = true ∧
      floatThroughText Cast.largestSingle =
        .error (.invalidCast "340282350000000000000000000000000000000" "a float") ∧
      (saturating .single false besideHalfway).isFinite = true ∧
      floatThroughText (saturating .single false besideHalfway) =
        .ok (saturating .single false (besideHalfway + 1)) ∧
      saturating .single false (besideHalfway + 1) ≠ saturating .single false besideHalfway :=
  ⟨by decide, floatThroughText_largest false, by decide, floatThroughText_besideHalfway false,
    by decide⟩

end Value

end InterpreterCore
