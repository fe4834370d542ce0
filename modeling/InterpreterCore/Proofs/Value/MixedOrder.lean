import InterpreterCore.Proofs.Binary.Refinement
import InterpreterCore.Proofs.Value.Order

namespace InterpreterCore

open Binary

namespace Numeric

/-- The kind of a number. -/
def kind : Numeric → Kind
  | integer _ => .integer
  | float _ => .float
  | double _ => .double

/-- The place of a number on the line, without rounding. -/
def place : Numeric → Line
  | integer n => .ofRat n.toInt
  | float x => x.place
  | double x => x.place

/-- The place of the value of a kind that a number is converted to. -/
def rounded (kind : Kind) (a : Numeric) : Line :=
  match kind with
  | .double => a.toDouble.place
  | .float => a.toSingle.place
  | .integer | .boolean | .string | .object => a.place

/-- An integer with more digits than the values of a floating kind have. -/
def Exceeds (kind : Kind) : Numeric → Prop
  | integer n =>
    match kind with
    | .double => 2 ^ 53 < n.toInt.natAbs
    | .float => 2 ^ 24 < n.toInt.natAbs
    | .integer | .boolean | .string | .object => False
  | float _ | double _ => False

/-- Two different numbers that compare as equal. -/
def Merged (a b : Numeric) : Prop := (a.promote b).compare? = some .eq ∧ a.place ≠ b.place

/-- Two numbers that compare as equal although the left one is larger. -/
def Lowered (a b : Numeric) : Prop := (a.promote b).compare? = some .eq ∧ b.place < a.place

/-- One number compares as less than or equal to another. -/
def AtMost (a b : Numeric) : Prop :=
  ∃ order, (a.promote b).compare? = some order ∧ order.isLE = true

/-- Three numbers of kinds on which a step may be made more coarsely than the outer two are compared:
    integers around a floating value, or one number of each kind with the double at an end. -/
def Exposed : Numeric → Numeric → Numeric → Prop
  | integer _, float _, integer _ | integer _, double _, integer _ => True
  | integer _, float _, double _ | double _, float _, integer _ => True
  | float _, integer _, double _ | double _, integer _, float _ => True
  | _, _, _ => False

/-- Two steps from a number to a smaller one, one of which calls a number equal to a smaller one. -/
structure LeadsDown (a b c : Numeric) : Prop where
  exposed : Exposed a b c
  lt : c.place < a.place
  step : a.Lowered b ∨ b.Lowered c

/-- Two steps between different numbers, one of which calls different numbers equal. -/
structure LeadsApart (a b c : Numeric) : Prop where
  exposed : Exposed a b c
  ne : a.place ≠ c.place
  step : a.Merged b ∨ b.Merged c

variable {a b c : Numeric}

theorem kind_ne_double (hwidth : a.kind.width ≤ Kind.float.width) : a.kind ≠ .double := by
  intro hdouble
  rw [hdouble] at hwidth
  exact absurd hwidth (by decide)

theorem rounds_toSingle (hnarrow : a.kind ≠ .double) :
    Line.Rounds .single a.place a.toSingle.place := by
  cases a with
  | integer n => exact place_ofInt Format.regular_single (by decide) n
  | float x => exact .place x
  | double x => exact absurd rfl hnarrow

theorem rounds_toDouble (ha : a.isNaN = false) : Line.Rounds .double a.place a.toDouble.place := by
  cases a with
  | integer n => exact place_ofInt Format.regular_double (by decide) n
  | float x =>
    rw [toDouble, place_convert_double ha]
    exact .double_place ha
  | double x => exact .place x

/-- Two numbers compare as the places of the values of the wider kind that they are converted to. -/
theorem compares_rounded {order : Ordering} (horder : (a.promote b).compare? = some order) :
    order.Compares (a.rounded (a.kind.widest b.kind)) (b.rounded (a.kind.widest b.kind)) := by
  cases a with
  | integer m =>
    cases b with
    | integer n =>
      obtain rfl := Option.some.inj horder
      exact Line.compares_ofRat _ _
    | float y => exact compares_place (by decide) horder
    | double y => exact compares_place (by decide) horder
  | float x => cases b <;> exact compares_place (by decide) horder
  | double x => cases b <;> exact compares_place (by decide) horder

theorem not_exceeds_widest_left (hkept : ¬ a.Exceeds b.kind) :
    ¬ a.Exceeds (a.kind.widest b.kind) := by
  cases a with
  | integer => cases b <;> exact hkept
  | float | double => exact id

theorem not_exceeds_widest_right (hkept : ¬ b.Exceeds a.kind) :
    ¬ b.Exceeds (a.kind.widest b.kind) := by
  cases b with
  | integer => cases a <;> exact hkept
  | float | double => exact id

section Pair

variable (ha : a.isNaN = false) (hb : b.isNaN = false)
include ha

/-- Conversion to a kind that is wide enough for an integer keeps the number. -/
theorem rounded_of_kept {kind : Kind} (hwide : a.kind.width ≤ kind.width)
    (hkept : ¬ a.Exceeds kind) : a.rounded kind = a.place := by
  cases kind with
  | double =>
    cases a with
    | integer n =>
      exact place_ofInt_of_le Format.regular_double (by decide)
        ((not_lt.mp hkept).trans (by decide))
    | float x => exact place_convert_double ha
    | double x => rfl
  | float =>
    cases a with
    | integer n =>
      exact place_ofInt_of_le Format.regular_single (by decide)
        ((not_lt.mp hkept).trans (by decide))
    | float x => rfl
    | double x => exact absurd rfl (kind_ne_double hwide)
  | integer | boolean | string | object => rfl

include hb

/-- Conversion to a common kind keeps the order of two numbers, although it may bring them
    together. -/
theorem rounded_mono {kind : Kind} (haKind : a.kind.width ≤ kind.width)
    (hbKind : b.kind.width ≤ kind.width) (hle : a.place ≤ b.place) :
    a.rounded kind ≤ b.rounded kind := by
  cases kind with
  | double => exact (rounds_toDouble ha).mono (rounds_toDouble hb) hle
  | float =>
    have haRounds := rounds_toSingle (kind_ne_double haKind)
    have hbRounds := rounds_toSingle (kind_ne_double hbKind)
    exact haRounds.mono hbRounds hle
  | integer | boolean | string | object => exact hle

theorem exists_order : ∃ order, (a.promote b).compare? = some order := by
  refine Option.isSome_iff_exists.mp ?_
  rw [compare?_promote, ha, hb]
  rfl

/-- The order of two numbers is that of the values of the wider kind that they are converted to. -/
theorem atMost_iff : a.AtMost b ↔
    a.rounded (a.kind.widest b.kind) ≤ b.rounded (a.kind.widest b.kind) := by
  obtain ⟨order, horder⟩ := exists_order ha hb
  have hcompares := compares_rounded horder
  constructor
  · rintro ⟨other, hother, hle⟩
    obtain rfl := Option.some.inj (horder.symm.trans hother)
    cases order with
    | lt | eq => exact hcompares.le
    | gt => cases hle
  · intro hle
    refine ⟨order, horder, ?_⟩
    cases order with
    | lt | eq => rfl
    | gt => exact absurd hle hcompares.not_ge

theorem atMost_of_place_le (hle : a.place ≤ b.place) : a.AtMost b :=
  (atMost_iff ha hb).mpr
    (rounded_mono ha hb (Kind.width_le_widest_left _ _) (Kind.width_le_widest_right _ _) hle)

/-- Where two numbers do not compare as their places do, they are called equal, and one of them is an
    integer too long for the kind of the other. -/
theorem compares_place_or {order : Ordering} (horder : (a.promote b).compare? = some order) :
    order.Compares a.place b.place ∨
      order = .eq ∧ (a.Exceeds b.kind ∨ b.Exceeds a.kind) := by
  have hcompares := compares_rounded horder
  have haKind := Kind.width_le_widest_left a.kind b.kind
  have hbKind := Kind.width_le_widest_right a.kind b.kind
  by_cases hexceeds : a.Exceeds b.kind ∨ b.Exceeds a.kind
  · cases order with
    | eq => exact .inr ⟨rfl, hexceeds⟩
    | lt =>
      refine .inl (lt_of_not_ge fun hge => ?_)
      exact (rounded_mono hb ha hbKind haKind hge).not_gt hcompares
    | gt =>
      refine .inl (lt_of_not_ge fun hge => ?_)
      exact (rounded_mono ha hb haKind hbKind hge).not_gt hcompares
  · obtain ⟨haKept, hbKept⟩ := not_or.mp hexceeds
    rw [rounded_of_kept ha haKind (not_exceeds_widest_left haKept),
      rounded_of_kept hb hbKind (not_exceeds_widest_right hbKept)] at hcompares
    exact .inl hcompares

end Pair

/-- A number at most another one is so in fact, or is called equal to it. -/
theorem AtMost.place_le_or_lowered (ha : a.isNaN = false) (hb : b.isNaN = false)
    (hab : a.AtMost b) : a.place ≤ b.place ∨ a.Lowered b := by
  obtain ⟨order, horder, hle⟩ := hab
  obtain hcompares | ⟨rfl, _⟩ := compares_place_or ha hb horder
  · cases order with
    | lt | eq => exact .inl hcompares.le
    | gt => cases hle
  · exact (le_or_gt a.place b.place).imp_right fun hlt => ⟨horder, hlt⟩

theorem Exposed.symm (hkinds : Exposed a b c) : Exposed c b a := by
  cases a <;> cases b <;> cases c <;> first
    | exact trivial
    | cases hkinds

theorem compare?_symm (hab : (a.promote b).compare? = some .eq) :
    (b.promote a).compare? = some .eq := by
  rw [compare?_promote_swap, hab]
  rfl

theorem Lowered.merged (hlowered : a.Lowered b) : a.Merged b :=
  ⟨hlowered.1, hlowered.2.ne'⟩

theorem Merged.symm (hmerged : a.Merged b) : b.Merged a :=
  ⟨compare?_symm hmerged.1, hmerged.2.symm⟩

/-- Numbers each at most the other are equal. -/
theorem AtMost.antisymm (hac : a.AtMost c) (hca : c.AtMost a) :
    (a.promote c).compare? = some .eq := by
  obtain ⟨order, horder, hle⟩ := hac
  obtain ⟨opposite, hopposite, hge⟩ := hca
  rw [compare?_promote_swap, horder] at hopposite
  cases hopposite
  cases order with
  | eq => exact horder
  | lt => cases hge
  | gt => cases hle

section Chain

variable (ha : a.isNaN = false) (hc : c.isNaN = false)
include ha hc

/-- Two numbers that are ordered as doubles are ordered, unless both are integers. -/
theorem atMost_of_rounded_double (hmixed : a.kind ≠ .integer ∨ c.kind ≠ .integer)
    (hle : a.rounded .double ≤ c.rounded .double) : a.AtMost c := by
  rw [atMost_iff ha hc]
  cases a with
  | integer m =>
    cases c with
    | integer k => exact hmixed.elim (absurd rfl) (absurd rfl)
    | float z =>
      have hplace : (Numeric.float z).rounded .double = z.place := place_convert_double hc
      rw [hplace] at hle
      exact Line.Rounds.single_le hc (rounds_toDouble ha) (rounds_toSingle nofun) hle
    | double z => exact hle
  | float x =>
    have hplace : (Numeric.float x).rounded .double = x.place := place_convert_double ha
    cases c with
    | integer k =>
      rw [hplace] at hle
      exact Line.Rounds.le_single ha (rounds_toDouble hc) (rounds_toSingle nofun) hle
    | float z =>
      have hlast : (Numeric.float z).rounded .double = z.place := place_convert_double hc
      rw [hplace, hlast] at hle
      exact hle
    | double z => exact hle
  | double x => cases c <;> exact hle

/-- Steps to and from an integer. Those between integers are steps between their places, and so can
    be made in any kind. -/
theorem AtMost.trans_integer {n : Int64} (hkinds : ¬ Exposed a (integer n) c)
    (hab : a.AtMost (integer n)) (hbc : (integer n).AtMost c) : a.AtMost c := by
  have hn : (integer n).isNaN = false := rfl
  rw [atMost_iff ha hn] at hab
  rw [atMost_iff hn hc] at hbc
  rw [atMost_iff ha hc]
  cases a with
  | integer m => exact (rounded_mono ha hn (Nat.zero_le _) (Nat.zero_le _) hab).trans hbc
  | float x =>
    cases c with
    | integer k => exact hab.trans (rounded_mono hn hc (Nat.zero_le _) (Nat.zero_le _) hbc)
    | float z => exact hab.trans hbc
    | double z => exact absurd trivial hkinds
  | double x =>
    cases c with
    | integer k => exact hab.trans (rounded_mono hn hc (Nat.zero_le _) (Nat.zero_le _) hbc)
    | float z => exact absurd trivial hkinds
    | double z => exact hab.trans hbc

/-- Steps to and from a float. Those between floats can be made among doubles. -/
theorem AtMost.trans_float {y : Single} (hy : (float y).isNaN = false)
    (hkinds : ¬ Exposed a (float y) c) (hab : a.AtMost (float y)) (hbc : (float y).AtMost c) :
    a.AtMost c := by
  rw [atMost_iff ha hy] at hab
  rw [atMost_iff hy hc] at hbc
  rw [atMost_iff ha hc]
  have hwidth : Kind.float.width ≤ Kind.double.width := by decide
  cases a with
  | integer m =>
    cases c with
    | float z => exact hab.trans hbc
    | integer k | double z => exact absurd trivial hkinds
  | float x =>
    cases c with
    | integer k | float z => exact hab.trans hbc
    | double z => exact (rounded_mono ha hy hwidth hwidth hab).trans hbc
  | double x =>
    cases c with
    | integer k => exact absurd trivial hkinds
    | float z => exact hab.trans (rounded_mono hy hc hwidth hwidth hbc)
    | double z => exact hab.trans hbc

/-- Steps to and from a double are both made among doubles. -/
theorem AtMost.trans_double {y : Double} (hy : (double y).isNaN = false)
    (hkinds : ¬ Exposed a (double y) c) (hab : a.AtMost (double y)) (hbc : (double y).AtMost c) :
    a.AtMost c := by
  rw [atMost_iff ha hy] at hab
  rw [atMost_iff hy hc] at hbc
  have hfirst : a.rounded .double ≤ y.place := by cases a <;> exact hab
  have hlast : y.place ≤ c.rounded .double := by cases c <;> exact hbc
  refine atMost_of_rounded_double ha hc ?_ (hfirst.trans hlast)
  cases a with
  | integer m =>
    cases c with
    | integer k => exact absurd trivial hkinds
    | float | double => exact .inr nofun
  | float | double => exact .inl nofun

/-- Two steps make one, or have led down. -/
theorem AtMost.trans_or (hb : b.isNaN = false) (hab : a.AtMost b) (hbc : b.AtMost c) :
    a.AtMost c ∨ LeadsDown a b c := by
  obtain hle | hlt := le_or_gt a.place c.place
  · exact .inl (atMost_of_place_le ha hc hle)
  by_cases hkinds : Exposed a b c
  · refine .inr ⟨hkinds, hlt, ?_⟩
    obtain hfirst | hlowered := hab.place_le_or_lowered ha hb
    · obtain hlast | hlowered := hbc.place_le_or_lowered hb hc
      · exact absurd (hfirst.trans hlast) hlt.not_ge
      · exact .inr hlowered
    · exact .inl hlowered
  · refine .inl ?_
    cases b with
    | integer n => exact hab.trans_integer ha hc hkinds hbc
    | float y => exact hab.trans_float ha hc hb hkinds hbc
    | double y => exact hab.trans_double ha hc hb hkinds hbc

/-- Two numbers that a third one equals are equal, or the steps have led apart. -/
theorem compare?_trans_or (hb : b.isNaN = false) (hab : (a.promote b).compare? = some .eq)
    (hbc : (b.promote c).compare? = some .eq) :
    (a.promote c).compare? = some .eq ∨ LeadsApart a b c := by
  have hup := AtMost.trans_or ha hc hb ⟨_, hab, rfl⟩ ⟨_, hbc, rfl⟩
  have hdown := AtMost.trans_or hc ha hb ⟨_, compare?_symm hbc, rfl⟩ ⟨_, compare?_symm hab, rfl⟩
  obtain hup | ⟨hkinds, hlt, hstep⟩ := hup
  · obtain hdown | ⟨hkinds, hlt, hstep⟩ := hdown
    · exact .inl (hup.antisymm hdown)
    · refine .inr ⟨hkinds.symm, hlt.ne, hstep.symm.imp ?_ ?_⟩
      · exact fun hlowered => hlowered.merged.symm
      · exact fun hlowered => hlowered.merged.symm
  · exact .inr ⟨hkinds, hlt.ne', hstep.imp Lowered.merged Lowered.merged⟩

end Chain

end Numeric

namespace Value

/-- A value that holds a number with a place on the line. -/
structure Holds (v : Value) (a : Numeric) : Prop where
  numeric : v.datum.numeric? = some a
  number : a.isNaN = false

/-- One value compares as less than or equal to another. -/
def AtMost (l r : Value) : Prop := ∃ order, l.compare r = .ok order ∧ order.isLE = true

theorem kind_ne_object {v : Value} {a : Numeric} (hv : v.Holds a) : v.kind ≠ .object :=
  kind_ne_object_of_isNumeric (isNumeric_of_numeric? hv.numeric)

section Holds

variable {l m : Value} {a b : Numeric} (hl : l.Holds a) (hm : m.Holds b)
include hl hm

theorem compare_eq_ok_iff {order : Ordering} :
    l.compare m = .ok order ↔ (a.promote b).compare? = some order :=
  compare_number_eq_ok_iff hl.numeric hm.numeric

theorem atMost_iff : l.AtMost m ↔ a.AtMost b :=
  exists_congr fun _ => and_congr_left' (compare_eq_ok_iff hl hm)

theorem isEqualTo_iff : l.isEqualTo m = .ok true ↔ (a.promote b).compare? = some .eq := by
  rw [isEqualTo_iff_compare (not_or.mpr ⟨kind_ne_object hl, kind_ne_object hm⟩),
    compare_eq_ok_iff hl hm]

end Holds

/-- Numbers of any kinds compare as the numbers that they are, but for an integer too long for the
    kind of the other number, which may be called equal to it. Order and equality are transitive but
    for steps between numbers of exposed kinds that lead down or apart in this way. -/
theorem numbers_ordered_up_to_rounding {l m r : Value} {a b c : Numeric} (hl : l.Holds a)
    (hm : m.Holds b) (hr : r.Holds c) :
    (∃ order, l.compare m = .ok order ∧
      (order.Compares a.place b.place ∨
        order = .eq ∧ (a.Exceeds b.kind ∨ b.Exceeds a.kind))) ∧
    (l.AtMost m → m.AtMost r → l.AtMost r ∨ Numeric.LeadsDown a b c) ∧
    (l.isEqualTo m = .ok true → m.isEqualTo r = .ok true →
      l.isEqualTo r = .ok true ∨ Numeric.LeadsApart a b c) := by
  refine ⟨?_, fun hlm hmr => ?_, fun hlm hmr => ?_⟩
  · obtain ⟨order, horder⟩ := Numeric.exists_order hl.number hm.number
    exact ⟨order, (compare_eq_ok_iff hl hm).mpr horder,
      Numeric.compares_place_or hl.number hm.number horder⟩
  · rw [atMost_iff hl hm] at hlm
    rw [atMost_iff hm hr] at hmr
    rw [atMost_iff hl hr]
    exact Numeric.AtMost.trans_or hl.number hr.number hm.number hlm hmr
  · rw [isEqualTo_iff hl hm] at hlm
    rw [isEqualTo_iff hm hr] at hmr
    rw [isEqualTo_iff hl hr]
    exact Numeric.compare?_trans_or hl.number hr.number hm.number hlm hmr

theorem ordered_from_integer_to_float :
    (integer 16777217).Holds (.integer 16777217) ∧
      (double (ofInt .double 16777217)).Holds (.double (ofInt .double 16777217)) ∧
      (float (ofInt .single 16777218)).Holds (.float (ofInt .single 16777218)) ∧
      (integer 16777217).AtMost (double (ofInt .double 16777217)) ∧
      (double (ofInt .double 16777217)).AtMost (float (ofInt .single 16777218)) ∧
      (integer 16777217).AtMost (float (ofInt .single 16777218)) := by
  have hl : (integer 16777217).Holds (.integer 16777217) := ⟨rfl, rfl⟩
  have hm : (double (ofInt .double 16777217)).Holds (.double (ofInt .double 16777217)) :=
    ⟨rfl, by decide⟩
  have hr : (float (ofInt .single 16777218)).Holds (.float (ofInt .single 16777218)) :=
    ⟨rfl, by decide⟩
  have hlm : (integer 16777217).AtMost (double (ofInt .double 16777217)) :=
    ⟨.eq, by decide +kernel, rfl⟩
  have hmr : (double (ofInt .double 16777217)).AtMost (float (ofInt .single 16777218)) :=
    ⟨.lt, by decide +kernel, rfl⟩
  have hlr := (numbers_ordered_up_to_rounding hl hm hr).2.1 hlm hmr
  exact ⟨hl, hm, hr, hlm, hmr, hlr.resolve_right fun hdown => hdown.exposed⟩

/-- Three values, of which the first two are equal and the last two are, but not the outer ones. -/
def Strays (l m r : Value) : Prop :=
  l.compare m = .ok .eq ∧ m.compare r = .ok .eq ∧ l.compare r = .ok .gt ∧
    l.isEqualTo m = .ok true ∧ m.isEqualTo r = .ok true ∧ l.isEqualTo r = .ok false
deriving Decidable

/-- On none of the exposed kinds is order or equality transitive throughout. -/
theorem rounding_breaks_transitivity :
    Strays (integer 16777217) (float (ofInt .single 16777216)) (integer 16777216) ∧
      Strays (integer 9007199254740993) (double (ofInt .double 9007199254740992))
        (integer 9007199254740992) ∧
      Strays (integer 16777217) (float (ofInt .single 16777216))
        (double (ofInt .double 16777216)) ∧
      Strays (double (ofInt .double 16777220)) (float (ofInt .single 16777220))
        (integer 16777219) ∧
      Strays (float (ofInt .single 16777220)) (integer 16777219)
        (double (ofInt .double 16777219)) ∧
      Strays (double (ofInt .double 16777217)) (integer 16777217)
        (float (ofInt .single 16777216)) := by
  decide +kernel

end Value

end InterpreterCore
