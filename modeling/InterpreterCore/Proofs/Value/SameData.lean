import InterpreterCore.Proofs.Binary.Widening
import InterpreterCore.Proofs.Instance.Heap
import InterpreterCore.Proofs.Text.Utf8

namespace InterpreterCore

namespace Binary

variable {format : Format}

/-- Two values of a format that are one number: they are the same value, or both are zeros. -/
inductive SameNumber : Binary format → Binary format → Prop where
  | self {x : Binary format} (hnumber : x.isNaN = false) : SameNumber x x
  | zeros {x y : Binary format} (hx : x.isZero = true) (hy : y.isZero = true) : SameNumber x y

theorem isNaN_of_isZero {x : Binary format} (hzero : x.isZero = true) : x.isNaN = false := by
  rw [isNaN, beq_iff_eq.mp hzero]
  exact decide_eq_false (Nat.not_lt_zero _)

theorem SameNumber.isNaN_left {x y : Binary format} (hsame : x.SameNumber y) :
    x.isNaN = false := by
  cases hsame with
  | self hnumber => exact hnumber
  | zeros hx => exact isNaN_of_isZero hx

theorem SameNumber.symm {x y : Binary format} (hsame : x.SameNumber y) : y.SameNumber x := by
  cases hsame with
  | self hnumber => exact .self hnumber
  | zeros hx hy => exact .zeros hy hx

/-- A magnitude with its sign tells the value, but for the sign of a zero. -/
theorem signed_eq_iff {x y : Binary format} :
    x.signed = y.signed ↔ x = y ∨ x.isZero = true ∧ y.isZero = true := by
  obtain ⟨negative, magnitude, _⟩ := x
  obtain ⟨negative', magnitude', _⟩ := y
  simp only [signed, isZero, beq_iff_eq, Binary.mk.injEq]
  cases negative <;> cases negative' <;> simp <;> omega

/-- Two values of a format compare as equal exactly when they are one number. -/
theorem compare?_eq_iff {x y : Binary format} :
    x.compare? y = some .eq ↔ x.SameNumber y := by
  constructor
  · intro horder
    have hnumbers := isSome_compare? x y
    rw [horder, Option.isSome_some, eq_comm, Bool.and_eq_true, Bool.not_eq_true',
      Bool.not_eq_true'] at hnumbers
    rw [compare?_of_number hnumbers.1 hnumbers.2] at horder
    obtain rfl | ⟨hx, hy⟩ := signed_eq_iff.mp (Int.compare_eq_eq.mp (Option.some.inj horder))
    · exact .self hnumbers.1
    · exact .zeros hx hy
  · intro hsame
    have hsigned : x.signed = y.signed := by
      cases hsame with
      | self => rfl
      | zeros hx hy => exact signed_eq_iff.mpr (.inr ⟨hx, hy⟩)
    rw [compare?_of_number hsame.isNaN_left hsame.symm.isNaN_left, hsigned, Int.compare_eq_eq.mpr rfl]

theorem equals_iff {x y : Binary format} : x.equals y = true ↔ x.SameNumber y := by
  rw [equals, beq_iff_eq, compare?_eq_iff]

end Binary

namespace Instance

/-- What is stored in a field through the first handle is read there through the second, whatever
    the fields have been before. -/
def SharesFields (x y : Instance) : Prop :=
  ∀ (heap : Heap) (name : String) (value : Value), x.id < heap.instances.size →
    (heap.setField x name value).field? y name = some value

/-- Two handles stand for one instance exactly when they share its fields. -/
theorem same_iff_sharesFields {x y : Instance} : x.same y = true ↔ x.SharesFields y := by
  constructor
  · intro hsame heap name value hx
    rw [Heap.field?_setField heap hx, if_pos ⟨hsame, rfl⟩]
  · intro hshares
    let heap : Heap := ⟨Array.replicate (x.id + 1) []⟩
    have hx : x.id < heap.instances.size := by
      rw [Array.size_replicate]
      exact Nat.lt_succ_self _
    have hempty : heap.field? y "" = none := by
      rw [Heap.field?, Array.getElem?_replicate]
      split <;> rfl
    have hread := hshares heap "" (.boolean true) hx
    rw [Heap.field?_setField heap hx, hempty] at hread
    by_contra hother
    rw [if_neg fun hstored => hother hstored.1] at hread
    cases hread

end Instance

/-- Equality of two data: one truth value, one integer, one number of a floating kind, two texts
    with the same bytes, or one instance. -/
inductive Datum.Same : Datum → Datum → Prop where
  | boolean (b : Bool) : Same (.boolean b) (.boolean b)
  | integer (n : Int64) : Same (.integer n) (.integer n)
  | float {x y : Single} (hnumber : x.SameNumber y) : Same (.float x) (.float y)
  | double {x y : Double} (hnumber : x.SameNumber y) : Same (.double x) (.double y)
  | string {s t : String} (hbytes : Text.utf8 s = Text.utf8 t) : Same (.string s) (.string t)
  | object {x y : Instance} (hshares : x.SharesFields y) : Same (.object x) (.object y)

theorem Datum.equals_iff (a b : Datum) : a.equals b = true ↔ a.Same b := by
  constructor
  · intro hequal
    cases a <;> cases b <;> try cases hequal
    case boolean.boolean =>
      obtain rfl := beq_iff_eq.mp hequal
      exact .boolean _
    case integer.integer =>
      obtain rfl := beq_iff_eq.mp hequal
      exact .integer _
    case float.float => exact .float (Binary.equals_iff.mp hequal)
    case double.double => exact .double (Binary.equals_iff.mp hequal)
    case string.string => exact .string (Text.utf8_inj.mpr (beq_iff_eq.mp hequal))
    case object.object => exact .object (Instance.same_iff_sharesFields.mp hequal)
  · intro hsame
    cases hsame with
    | boolean | integer => exact beq_iff_eq.mpr rfl
    | float hnumber | double hnumber => exact Binary.equals_iff.mpr hnumber
    | string hbytes => exact beq_iff_eq.mpr (Text.utf8_inj.mp hbytes)
    | object hshares => exact Instance.same_iff_sharesFields.mpr hshares

namespace Value

variable {l r : Value}

theorem sameData_iff : l.sameData r = true ↔ l.datum.Same r.datum := Datum.equals_iff ..

theorem kind_of_sameData (hsame : l.sameData r = true) : l.kind = r.kind := by
  obtain ⟨left, _⟩ := l
  obtain ⟨right, _⟩ := r
  cases sameData_iff.mp hsame <;> rfl

end Value

end InterpreterCore
