import InterpreterCore.Decimal.Layout
import InterpreterCore.Decimal.Reading
import InterpreterCore.Proofs.Decimal.Shortest
import InterpreterCore.Proofs.Text.Numeral

namespace InterpreterCore.Decimal

open Text

theorem length_toDigits_eq (steps : Nat) {n : Nat} (hn : n < 10 ^ (steps + 1)) :
    (Nat.toDigits 10 n).length = leadingPlaceWithin steps n + 1 := by
  induction steps generalizing n with
  | zero =>
    rw [Nat.toDigits_of_lt_base (by omega)]
    rfl
  | succ steps ih =>
    rw [Nat.toDigits_eq_if (by decide), leadingPlaceWithin]
    split
    · rfl
    · rw [List.length_append, ih (by omega), List.length_singleton]

/-- A number has as many digits as its leading place tells. -/
theorem length_toDigits (n : Nat) :
    (Nat.toDigits 10 n).length = leadingPlace n + 1 :=
  length_toDigits_eq n.log2 (Nat.lt_log2_self.trans_le (Nat.pow_le_pow_left (by decide) _))

/-- The leading place is that of the largest power of ten not above a positive number. -/
theorem leadingPlace_bounds {n : Nat} (hn : 0 < n) :
    10 ^ leadingPlace n ≤ n ∧ n < 10 ^ (leadingPlace n + 1) := by
  have hlength := length_toDigits n
  constructor
  · obtain hzero | hpos := Nat.eq_zero_or_pos (leadingPlace n)
    · rwa [hzero]
    · by_contra hlt
      have hshort := (Nat.length_toDigits_le_iff (by decide) hpos).mpr (Nat.not_le.mp hlt)
      omega
  · exact (Nat.length_toDigits_le_iff (by decide) (Nat.succ_pos _)).mp hlength.le

/-- Below the cap every digit of an exponent counts. -/
theorem exponentSize_eq_spelled {digits : List Char} (hsize : spelled 0 digits < exponentCap) :
    exponentSize digits = spelled 0 digits := by
  suffices hfold : ∀ before, spelled before digits < exponentCap →
      digits.foldl (fun size c => if size < exponentCap then size * 10 + digitValue c else size)
        before = spelled before digits from hfold 0 hsize
  clear hsize
  induction digits with
  | nil => exact fun _ _ => rfl
  | cons c rest ih =>
    intro before hbefore
    have hguard : before < exponentCap := (le_spelled before (c :: rest)).trans_lt hbefore
    rw [List.foldl_cons, if_pos hguard]
    exact ih _ hbefore

/-- A written exponent is read as it was. -/
theorem readExponent?_write {leading : ℤ} (hsize : leading.natAbs < exponentCap) :
    readExponent? (if leading < 0 then '-' :: Nat.toDigits 10 leading.natAbs
      else Nat.toDigits 10 leading.natAbs) = some leading := by
  have hdigits := numeral_toDigits leading.natAbs
  have hall : (Nat.toDigits 10 leading.natAbs).all Char.isDigit = true :=
    List.all_eq_true.mpr hdigits
  have hsome : (Nat.toDigits 10 leading.natAbs).isEmpty = false :=
    List.isEmpty_eq_false_iff.mpr (toDigits_ne_nil _)
  have hspelled : exponentSize (Nat.toDigits 10 leading.natAbs) = leading.natAbs := by
    have hself := spelled_toDigits leading.natAbs
    rw [exponentSize_eq_spelled (hself.trans_lt hsize), hself]
  have hread : ∀ negative : Bool,
      (if (Nat.toDigits 10 leading.natAbs).isEmpty ||
          !(Nat.toDigits 10 leading.natAbs).all Char.isDigit then none
        else some (if negative then -(exponentSize (Nat.toDigits 10 leading.natAbs) : ℤ)
          else exponentSize (Nat.toDigits 10 leading.natAbs))) =
        some (if negative then -(leading.natAbs : ℤ) else leading.natAbs) := by
    intro negative
    rw [hall, hsome, hspelled]
    rfl
  split
  · rename_i hnegative
    refine (hread true).trans (congrArg some ?_)
    rw [if_pos rfl]
    omega
  · rename_i hnonneg
    rw [readExponent?, splitSign_of_numeral hdigits]
    refine (hread false).trans (congrArg some ?_)
    rw [if_neg Bool.false_ne_true]
    omega

section Parts

variable {whole places tail : List Char} {exponent : ℤ} (hwhole : Numeral whole)
  (hsome : whole ≠ []) (htail : tail = [] ∨ ∃ rest, tail = 'e' :: rest)
  (hexponent : readExponentPart? tail = some exponent)
include hwhole hsome htail hexponent

/-- Digits and an exponent. -/
theorem read?_append : read? (whole ++ tail) = some ⟨spelled 0 whole, exponent⟩ := by
  have hnonempty : whole.isEmpty = false := List.isEmpty_eq_false_iff.mpr hsome
  have hstop : ∀ c ∈ tail.head?, c.isDigit = false := by
    obtain rfl | ⟨rest, rfl⟩ := htail
    · exact fun c hc => nomatch hc
    · rintro c ⟨⟩
      decide
  have hread : read? (whole ++ tail) =
      if whole.isEmpty && true then none
      else (readExponentPart? tail).map fun exponent =>
        ⟨digitsValue (whole ++ []), exponent - (0 : Nat)⟩ := by
    rw [read?, takeWhile_numeral_append hwhole hstop, dropWhile_numeral_append hwhole hstop]
    obtain rfl | ⟨rest, rfl⟩ := htail <;> rfl
  simp only [hread, hnonempty, Bool.false_and, Bool.false_eq_true, if_false, hexponent,
    Option.map_some, List.append_nil, Nat.cast_zero, Int.sub_zero, digitsValue_eq]

/-- Digits with a point among them, and an exponent. -/
theorem read?_append_point (hplaces : Numeral places) :
    read? (whole ++ '.' :: (places ++ tail)) =
      some ⟨spelled 0 (whole ++ places), exponent - (places.length : Nat)⟩ := by
  have hnonempty : whole.isEmpty = false := List.isEmpty_eq_false_iff.mpr hsome
  have hstop : ∀ c ∈ tail.head?, c.isDigit = false := by
    obtain rfl | ⟨rest, rfl⟩ := htail
    · exact fun c hc => nomatch hc
    · rintro c ⟨⟩
      decide
  have hpoint : ∀ c ∈ ('.' :: (places ++ tail)).head?, c.isDigit = false := by
    rintro c ⟨⟩
    decide
  rw [read?, takeWhile_numeral_append hwhole hpoint, dropWhile_numeral_append hwhole hpoint]
  simp only [takeWhile_numeral_append hplaces hstop, dropWhile_numeral_append hplaces hstop,
    hnonempty, Bool.false_and, Bool.false_eq_true, if_false, hexponent, Option.map_some,
    digitsValue_eq]

end Parts

section Leading

variable {d : Decimal}

/-- The power of ten of the leading digit is the largest that is not above the number. -/
theorem leadingExponent_bounds (hpos : 0 < d.coefficient) :
    (10 : ℚ) ^ d.leadingExponent ≤ d.value ∧ d.value < 10 ^ (d.leadingExponent + 1) := by
  obtain ⟨hlow, hhigh⟩ := leadingPlace_bounds hpos
  have hunit := ten_zpow_pos d.exponent
  have hsplit : ∀ place : Nat, (10 : ℚ) ^ (d.exponent + place) = (10 ^ place : Nat) * 10 ^ d.exponent := by
    intro place
    rw [zpow_add₀ (by norm_num), zpow_natCast, mul_comm, Nat.cast_pow, Nat.cast_ofNat]
  have hnext : d.leadingExponent + 1 = d.exponent + (leadingPlace d.coefficient + 1 : Nat) := by
    rw [leadingExponent, Nat.cast_succ, add_assoc]
  constructor
  · rw [leadingExponent, hsplit, value]
    exact mul_le_mul_of_nonneg_right (Nat.cast_le.mpr hlow) hunit.le
  · rw [hnext, hsplit, value]
    exact mul_lt_mul_of_pos_right (Nat.cast_lt.mpr hhigh) hunit

/-- The leading digit of a decimal in the cell of a finite nonzero magnitude is at a place that a
    binary digit of the format can have, or next to one. -/
theorem leadingExponent_range {format : Binary.Format} (hformat : format.Regular) {magnitude : Nat}
    (hrounds : format.RoundsTo d.value magnitude) (hpos : 0 < magnitude)
    (hlt : magnitude < format.infinity) :
    format.leastExponent - 2 < d.leadingExponent ∧
      d.leadingExponent ≤ (format.overflowExponent : ℤ) := by
  have hleast := hformat.leastExponent_nonpos
  have hlower : (2 : ℚ) ^ (format.leastExponent - 1) ≤ d.value := by
    rw [← Binary.Format.bound_one]
    exact (Binary.Format.bound_strictMono.monotone hpos).trans hrounds.bound_le
  have hupper : d.value ≤ 2 ^ (format.overflowExponent : ℤ) := by
    rw [← Binary.Format.point_infinity hformat]
    exact hrounds.le_bound.trans ((Binary.Format.bound_le_point _).trans
      (Binary.Format.point_strictMono.monotone hlt))
  have hcoefficient : 0 < d.coefficient :=
    (value_pos_iff d).mp ((Binary.two_zpow_pos _).trans_le hlower)
  obtain ⟨hlow, hhigh⟩ := leadingExponent_bounds hcoefficient
  constructor
  · by_contra hsmall
    have hpower := ten_zpow_le_two_zpow (show d.leadingExponent + 1 ≤ 0 by omega)
    have hexponents := (zpow_lt_zpow_iff_right₀ (one_lt_two : (1 : ℚ) < 2)).mp
      (hlower.trans_lt (hhigh.trans_le hpower))
    omega
  · by_contra hlarge
    have hpower := two_zpow_le_ten_zpow (show 0 ≤ d.leadingExponent by omega)
    have hexponents := (zpow_le_zpow_iff_right₀ (one_lt_two : (1 : ℚ) < 2)).mp
      (hpower.trans (hlow.trans hupper))
    omega

end Leading

section Write

variable (d : Decimal)

theorem numeral_digits : Numeral d.digits := numeral_toDigits d.coefficient

theorem spelled_digits : spelled 0 d.digits = d.coefficient := spelled_toDigits d.coefficient

theorem digits_ne_nil : d.digits ≠ [] := toDigits_ne_nil d.coefficient

/-- The last digit counts the power of ten of the exponent. -/
theorem length_digits : (d.digits.length : ℤ) = d.leadingExponent - d.exponent + 1 := by
  have hlength := length_toDigits d.coefficient
  rw [digits, leadingExponent]
  omega

/-- One digit before the point, with the exponent of the leading digit, is the decimal itself. -/
theorem read?_writeScientific (hsize : d.leadingExponent.natAbs < exponentCap) :
    read? (writeScientific d.digits d.leadingExponent) = some d := by
  have hexponent := readExponent?_write hsize
  have hlength := d.length_digits
  have hspelled := d.spelled_digits
  have hnumeral := d.numeral_digits
  generalize hmark : (if d.leadingExponent < 0 then '-' :: Nat.toDigits 10 d.leadingExponent.natAbs
    else Nat.toDigits 10 d.leadingExponent.natAbs) = mark at hexponent
  obtain ⟨first, rest, hdigits⟩ := List.exists_cons_of_ne_nil d.digits_ne_nil
  rw [hdigits] at hlength hspelled hnumeral ⊢
  have hfirst : Numeral [first] := hnumeral.take 1
  have hrest : Numeral rest := hnumeral.drop 1
  cases rest with
  | nil =>
    have hform : writeScientific [first] d.leadingExponent = [first] ++ 'e' :: mark := by
      rw [← hmark]
      rfl
    rw [hform, read?_append hfirst (List.cons_ne_nil _ _) (.inr ⟨mark, rfl⟩) hexponent, hspelled]
    have hplace : d.leadingExponent = d.exponent := by
      rw [List.length_singleton] at hlength
      omega
    rw [hplace]
  | cons second rest =>
    have hform : writeScientific (first :: second :: rest) d.leadingExponent =
        [first] ++ '.' :: ((second :: rest) ++ 'e' :: mark) := by
      rw [← hmark]
      rfl
    rw [hform, read?_append_point hfirst (List.cons_ne_nil _ _) (.inr ⟨mark, rfl⟩) hexponent hrest,
      List.singleton_append, hspelled]
    have hplace : d.leadingExponent - ((second :: rest).length : Nat) = d.exponent := by
      rw [List.length_cons, Nat.cast_succ] at hlength
      omega
    rw [hplace]

/-- Below one the fillers between the point and the digits count the places to the first digit. -/
theorem read?_writePositional_of_neg (layout : Layout) (hbelow : d.leadingExponent < 0) :
    read? (writePositional layout d.digits d.leadingExponent) = some d := by
  have hlength := d.length_digits
  generalize hfillers : (-d.leadingExponent - 1).toNat = fillers
  have hform : writePositional layout d.digits d.leadingExponent =
      ['0'] ++ '.' :: ((List.replicate fillers '0' ++ d.digits) ++ []) := by
    rw [writePositional, if_pos hbelow, hfillers, List.append_nil]
    rfl
  have hplaces : Numeral (List.replicate fillers '0' ++ d.digits) :=
    (numeral_replicate_zero fillers).append d.numeral_digits
  have hspelled : spelled 0 (['0'] ++ (List.replicate fillers '0' ++ d.digits)) = d.coefficient := by
    rw [← d.spelled_digits, ← spelled_zeros_append (fillers + 1) d.digits, List.replicate_succ]
    rfl
  have hplace :
      (0 : ℤ) - ((List.replicate fillers '0' ++ d.digits).length : Nat) = d.exponent := by
    rw [List.length_append, List.length_replicate]
    omega
  have hzero : Numeral ['0'] := numeral_replicate_zero 1
  rw [hform, read?_append_point hzero (List.cons_ne_nil _ _) (.inl rfl) rfl hplaces, hspelled,
    hplace]

/-- With the point among the digits, those after it count the places below one. -/
theorem read?_writePositional_of_lt (layout : Layout) (hnonneg : 0 ≤ d.leadingExponent)
    (hamong : d.leadingExponent.toNat + 1 < d.digits.length) :
    read? (writePositional layout d.digits d.leadingExponent) = some d := by
  have hlength := d.length_digits
  generalize hwhole : d.leadingExponent.toNat + 1 = whole at hamong
  have hform : writePositional layout d.digits d.leadingExponent =
      d.digits.take whole ++ '.' :: (d.digits.drop whole ++ []) := by
    rw [writePositional, if_neg (Int.not_lt.mpr hnonneg), List.append_nil]
    simp only [hwhole, if_pos hamong]
  have hsome : d.digits.take whole ≠ [] := by
    rw [Ne, List.take_eq_nil_iff]
    exact not_or.mpr ⟨by omega, d.digits_ne_nil⟩
  have hplace : (0 : ℤ) - ((d.digits.drop whole).length : Nat) = d.exponent := by
    rw [List.length_drop]
    omega
  rw [hform, read?_append_point (d.numeral_digits.take whole) hsome (.inl rfl) rfl
    (d.numeral_digits.drop whole), List.take_append_drop, d.spelled_digits, hplace]

/-- Fillers after the digits of a whole number make the coefficient larger and not the number. -/
theorem value_read?_writePositional_of_le (layout : Layout) (hnonneg : 0 ≤ d.leadingExponent)
    (hwhole : d.digits.length ≤ d.leadingExponent.toNat + 1) :
    ∃ other, read? (writePositional layout d.digits d.leadingExponent) = some other ∧
      other.value = d.value := by
  have hlength := d.length_digits
  generalize hfillers : d.leadingExponent.toNat + 1 - d.digits.length = fillers
  have hexponent : d.exponent = fillers := by omega
  have hform : writePositional layout d.digits d.leadingExponent =
      (d.digits ++ List.replicate fillers '0') ++ if layout.pointZero then ['.', '0'] else [] := by
    rw [writePositional, if_neg (Int.not_lt.mpr hnonneg)]
    simp only [if_neg (Nat.not_lt.mpr hwhole), hfillers]
  have hdigits : Numeral (d.digits ++ List.replicate fillers '0') :=
    d.numeral_digits.append (numeral_replicate_zero fillers)
  have hsome : d.digits ++ List.replicate fillers '0' ≠ [] :=
    List.append_ne_nil_of_left_ne_nil d.digits_ne_nil _
  have hspelled := spelled_append_zeros d.digits fillers
  rw [d.spelled_digits] at hspelled
  rw [hform]
  split
  · have hread := read?_append_point hdigits hsome (.inl rfl) rfl (numeral_replicate_zero 1)
    refine ⟨_, hread, ?_⟩
    rw [value, value, spelled_append_zeros, hspelled, List.length_replicate, hexponent, zpow_natCast]
    push_cast
    rw [zpow_neg_one, mul_inv_cancel_right₀ (by norm_num)]
  · refine ⟨_, read?_append hdigits hsome (.inl rfl) rfl, ?_⟩
    rw [value, value, hspelled, hexponent, zpow_zero, mul_one, zpow_natCast]
    push_cast
    rfl

/-- Digits at their places are a decimal with the same number. -/
theorem value_read?_writePositional (layout : Layout) :
    ∃ other, read? (writePositional layout d.digits d.leadingExponent) = some other ∧
      other.value = d.value := by
  obtain hbelow | hnonneg := Int.lt_or_le d.leadingExponent 0
  · exact ⟨d, d.read?_writePositional_of_neg layout hbelow, rfl⟩
  · obtain hamong | hwhole := Nat.lt_or_ge (d.leadingExponent.toNat + 1) d.digits.length
    · exact ⟨d, d.read?_writePositional_of_lt layout hnonneg hamong, rfl⟩
    · exact d.value_read?_writePositional_of_le layout hnonneg hwhole

/-- A written decimal is read as a decimal with the same number. -/
theorem value_read?_write (layout : Layout) (hsize : d.leadingExponent.natAbs < exponentCap) :
    ∃ other, read? (d.write layout) = some other ∧ other.value = d.value := by
  rw [write]
  split
  · exact d.value_read?_writePositional layout
  · split
    · exact d.value_read?_writePositional layout
    · exact ⟨d, d.read?_writeScientific hsize, rfl⟩

theorem figure_writePositional (layout : Layout) :
    Figure (writePositional layout d.digits d.leadingExponent) := by
  have hdigits := d.numeral_digits
  have hzeros : ∀ count, ∀ c ∈ List.replicate count '0', isBlank c = false := fun count =>
    (numeral_replicate_zero count).unblank
  rw [writePositional]
  split
  · refine ⟨⟨'0', _, rfl, by decide⟩, ?_⟩
    simp only [List.forall_mem_append, List.forall_mem_cons]
    exact ⟨⟨by decide, by decide, hzeros _⟩, hdigits.unblank⟩
  · dsimp only
    split
    · have hsome : d.digits.take (d.leadingExponent.toNat + 1) ≠ [] := by
        rw [Ne, List.take_eq_nil_iff]
        exact not_or.mpr ⟨Nat.succ_ne_zero _, d.digits_ne_nil⟩
      refine ((hdigits.take _).figure hsome).append ?_
      simp only [List.forall_mem_cons]
      exact ⟨by decide, (hdigits.drop _).unblank⟩
    · refine ((hdigits.figure d.digits_ne_nil).append (hzeros _)).append ?_
      split
      · exact List.forall_mem_cons.mpr ⟨by decide, hzeros 1⟩
      · exact fun c hc => nomatch hc

theorem figure_writeScientific : Figure (writeScientific d.digits d.leadingExponent) := by
  have hdigits := d.numeral_digits
  have hsize := (numeral_toDigits d.leadingExponent.natAbs).unblank
  have hexponent : ∀ c ∈ 'e' :: (if d.leadingExponent < 0 then
      '-' :: Nat.toDigits 10 d.leadingExponent.natAbs
      else Nat.toDigits 10 d.leadingExponent.natAbs), isBlank c = false := by
    split
    · simp only [List.forall_mem_cons]
      exact ⟨by decide, by decide, hsize⟩
    · exact List.forall_mem_cons.mpr ⟨by decide, hsize⟩
  obtain ⟨first, rest, hcons⟩ := List.exists_cons_of_ne_nil d.digits_ne_nil
  rw [hcons] at hdigits ⊢
  refine Figure.append ?_ hexponent
  cases rest with
  | nil => exact hdigits.figure (List.cons_ne_nil _ _)
  | cons second rest =>
    refine ⟨⟨first, _, rfl, hdigits first List.mem_cons_self⟩, ?_⟩
    have hunblank := hdigits.unblank
    simp only [List.forall_mem_cons] at hunblank ⊢
    exact ⟨hunblank.1, by decide, hunblank.2⟩

/-- Every written form starts with a digit and has no blanks. -/
theorem figure_write (layout : Layout) : Figure (d.write layout) := by
  rw [write]
  split
  · exact d.figure_writePositional layout
  · split
    · exact d.figure_writePositional layout
    · exact d.figure_writeScientific

end Write

end InterpreterCore.Decimal

namespace InterpreterCore.Binary

open Text

/-- A sign in front of a figure is the sign of the value, and the figure is no name. -/
theorem read?_figure (format : Format) (negative : Bool) {text : List Char}
    (hfigure : Figure text) :
    read? format (if negative then '-' :: text else text) =
      (Decimal.read? text).map (Decimal.toBinary format negative) := by
  obtain ⟨⟨first, rest, hcons, hfirst⟩, -⟩ := hfigure
  have hsplit : splitSign (if negative then '-' :: text else text) = (negative, text) := by
    cases negative with
    | true => rfl
    | false =>
      rw [hcons]
      exact splitSign_of_isDigit hfirst rest
  have hname : ∀ c name, c.isDigit = false →
      String.ofList (text.map Char.toLower) ≠ String.ofList (c :: name) := by
    intro c name hletter hsame
    rw [String.ofList_inj, hcons, List.map_cons, toLower_of_isDigit hfirst] at hsame
    rw [← (List.cons.inj hsame).1, hfirst] at hletter
    exact absurd hletter (by decide)
  rw [read?, hsplit]
  dsimp only
  rw [if_neg, if_neg]
  · exact hname 'n' ['a', 'n'] (by decide)
  · exact not_or.mpr ⟨hname 'i' ['n', 'f'] (by decide),
      hname 'i' ['n', 'f', 'i', 'n', 'i', 't', 'y'] (by decide)⟩

section Write

variable {format : Format} (x : Binary format)

/-- The decimal whose written form a finite value has. -/
def writtenDecimal : Decimal := if x.isZero then ⟨0, 0⟩ else x.shortest

variable {x} (hfinite : x.isFinite = true)
include hfinite

/-- The number that is written rounds to the value. It is the value or lies on the grid of a power
    of ten. -/
theorem value_writtenDecimal (hformat : format.Regular) :
    format.RoundsTo x.writtenDecimal.value x.magnitude ∧
      (x.writtenDecimal.value = format.point x.magnitude ∨
        ∃ exponent, OnGrid format x.writtenDecimal.value exponent x.magnitude) := by
  rw [writtenDecimal]
  split
  · rename_i hzero
    have hmagnitude : x.magnitude = 0 := beq_iff_eq.mp hzero
    have hvalue : Decimal.value ⟨0, 0⟩ = format.point x.magnitude := by
      rw [hmagnitude, Format.point_zero, Decimal.value, Nat.cast_zero, zero_mul]
    rw [hvalue]
    exact ⟨.point x.magnitude, .inl rfl⟩
  · exact value_shortest hformat hfinite

/-- Where the exponents of a format are far below the cap, so are those that are written. -/
theorem leadingExponent_writtenDecimal_lt (hformat : format.Regular)
    (hlow : 2 - format.leastExponent < Decimal.exponentCap)
    (hhigh : format.overflowExponent < Decimal.exponentCap) :
    x.writtenDecimal.leadingExponent.natAbs < Decimal.exponentCap := by
  have hrounds := (value_writtenDecimal hfinite hformat).1
  obtain hzero | hpos := Nat.eq_zero_or_pos x.magnitude
  · have hisZero : x.isZero = true := beq_iff_eq.mpr hzero
    rw [writtenDecimal, if_pos hisZero]
    decide
  · have hrange := Decimal.leadingExponent_range hformat hrounds hpos (magnitude_lt_infinity hfinite)
    have hleast := hformat.leastExponent_nonpos
    omega

theorem exists_layout_writeSize (layout : Decimal.Layout) :
    ∃ other, x.writeSize layout = x.writtenDecimal.write other := by
  have hinfinite : x.isInfinite = false :=
    beq_eq_false_iff_ne.mpr (magnitude_lt_infinity hfinite).ne
  rw [writeSize, hinfinite, writtenDecimal, if_neg Bool.false_ne_true]
  split
  · refine ⟨⟨none, layout.pointZero⟩, ?_⟩
    cases layout.pointZero <;> rfl
  · exact ⟨layout, rfl⟩

/-- A written finite value is read, in any format, as the value there that is nearest to the written
    number. -/
theorem read?_trim_write {target : Format} (htarget : target.Regular) (layout : Decimal.Layout)
    (hsize : x.writtenDecimal.leadingExponent.natAbs < Decimal.exponentCap) {place : Nat}
    (hplace : target.RoundsTo x.writtenDecimal.value place) :
    read? target (trim (x.write layout)) = some (saturating target x.negative place) := by
  have hnan : x.isNaN = false := decide_eq_false (magnitude_lt_infinity hfinite).not_gt
  obtain ⟨other, hother⟩ := exists_layout_writeSize hfinite layout
  obtain ⟨d, hread, hvalue⟩ := x.writtenDecimal.value_read?_write other hsize
  have hfigure := x.writtenDecimal.figure_write other
  have hform : x.write layout = if x.negative then '-' :: x.writtenDecimal.write other
      else x.writtenDecimal.write other := by
    rw [Binary.write, hnan, hother, if_neg Bool.false_ne_true]
  have htrim : trim (x.write layout) = x.write layout := by
    refine trim_eq_self ?_
    rw [hform]
    split
    · exact List.forall_mem_cons.mpr ⟨by decide, hfigure.unblank⟩
    · exact hfigure.unblank
  rw [← hvalue] at hplace
  rw [htrim, hform, read?_figure target x.negative hfigure, hread, Option.map_some,
    d.toBinary_eq_saturating htarget x.negative hplace]

end Write

end InterpreterCore.Binary
