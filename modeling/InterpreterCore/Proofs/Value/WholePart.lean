import InterpreterCore.Proofs.Binary.Quotient
import InterpreterCore.Proofs.Binary.Refinement
import InterpreterCore.Proofs.Value.Arithmetic
import InterpreterCore.Value.Coercion

namespace InterpreterCore

namespace Binary

open Format

variable {format : Format}

/-- Truncation shifts the significand, which divides it by a power of two and drops the rest. -/
theorem truncate?_of_finite {x : Binary format} (hfinite : x.isFinite = true) :
    x.truncate? = some (wholePart x.number) := by
  have hpower := zpow_eq_div two_pos x.exponent
  rw [Nat.cast_ofNat] at hpower
  have hsize : (x.significand : ℚ) * 2 ^ x.exponent =
      (x.significand * Nat.pow 2 x.exponent.toNat : Nat) / (Nat.pow 2 (-x.exponent).toNat : Nat) := by
    rw [hpower, Nat.cast_mul, mul_div_assoc]
  have hnonneg : 0 ≤ (x.significand : ℚ) * 2 ^ x.exponent := point_nonneg x.magnitude
  rw [number, wholePart_withSign x.negative hnonneg, hsize, Rat.floor_natCast_div_natCast, truncate?,
    if_pos hfinite]
  rfl

theorem truncate?_of_infinite {x : Binary format} (hfinite : ¬ x.isFinite = true) :
    x.truncate? = none := if_neg hfinite

end Binary

namespace Cast

open Binary

/-- An outcome that is the whole part of a finite value where that is an integer in range, and the
    given fault everywhere else. -/
structure WholeOrRefused {format : Format} (outcome : Outcome Int64) (x : Binary format)
    (fault : Fault) : Prop where
  whole : x.isFinite = true → Integer.InRange (wholePart x.number) →
    ∃ n, outcome = .ok n ∧ n.toInt = wholePart x.number
  refused : ¬ (x.isFinite = true ∧ Integer.InRange (wholePart x.number)) → outcome = .error fault

theorem wholeOrRefused_doubleToInteger (x : Double) :
    WholeOrRefused (doubleToInteger x) x (.invalidCast (quoteDouble x) "an integer") where
  whole hfinite hrange := by
    obtain ⟨n, hword, hexact⟩ := Integer.ofInt?_of_inRange hrange
    refine ⟨n, ?_, hexact⟩
    rw [doubleToInteger, truncate?_of_finite hfinite, Option.bind_some, hword]
  refused hrefused := by
    by_cases hfinite : x.isFinite = true
    · have hrange : ¬ Integer.InRange (wholePart x.number) :=
        fun hrange => hrefused ⟨hfinite, hrange⟩
      rw [doubleToInteger, truncate?_of_finite hfinite, Option.bind_some,
        Integer.ofInt?_eq_none hrange]
    · rw [doubleToInteger, truncate?_of_infinite hfinite, Option.bind_none]

end Cast

namespace Value

open Binary Cast

/-- A floating value is cut to the whole part of the number that it is, or refused because it is no
    number, infinite, or too large. A float and the double that it is widened to are one number, and
    a refusal quotes the double. -/
theorem whole_part_or_refused (isConst : Bool) :
    (∀ x : Double,
      WholeOrRefused (doubleToInteger x) x (.invalidCast (quoteDouble x) "an integer") ∧
      WholeOrRefused (toInteger ⟨.double x, isConst⟩) x
        (.invalidCast (quoteDouble x) "an integer")) ∧
    ∀ x : Single, WholeOrRefused (toInteger ⟨.float x, isConst⟩) x
      (.invalidCast (quoteDouble (x.convert .double)) "an integer") := by
  refine ⟨fun x => ⟨wholeOrRefused_doubleToInteger x, wholeOrRefused_doubleToInteger x⟩, fun x => ?_⟩
  have hfinite := isFinite_convert_double x
  obtain ⟨hwhole, hrefused⟩ := wholeOrRefused_doubleToInteger (x.convert .double)
  rw [hfinite] at hwhole hrefused
  constructor
  · intro hx
    rw [number_convert_double hx] at hwhole
    exact hwhole hx
  · intro hother
    refine hrefused fun ⟨hx, hrange⟩ => hother ⟨hx, ?_⟩
    rwa [number_convert_double hx] at hrange

-- Minus two to the 63rd is the least integer, and two to the 63rd is refused.
example : doubleToInteger (ofBits .double 0xC3E0000000000000) = .ok Int64.minValue ∧
    doubleToInteger (ofBits .double 0x43E0000000000000) =
      .error (.invalidCast "9223372036854776000" "an integer") := by
  decide +kernel

end Value

end InterpreterCore
