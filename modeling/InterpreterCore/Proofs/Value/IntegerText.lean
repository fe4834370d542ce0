import InterpreterCore.Proofs.Text.Numeral
import InterpreterCore.Proofs.Value.Arithmetic
import InterpreterCore.Value.Coercion
import Mathlib.Data.List.DropRight
import Mathlib.Data.Nat.Digits.Defs

namespace InterpreterCore

namespace Text

/-- Blanks and nothing else. -/
def Blank (text : List Char) : Prop := ∀ c ∈ text, isBlank c = true

/-- What is left of a text between the blanks at its ends. -/
structure Trimmed (text core : List Char) : Prop where
  parts : ∃ before after, text = before ++ core ++ after ∧ Blank before ∧ Blank after
  starts : ∀ c ∈ core.head?, isBlank c = false
  ends : ∀ c ∈ core.getLast?, isBlank c = false

/-- Blanks are dropped up to the first other character. -/
theorem dropWhile_blank_append {blanks text : List Char} (hblanks : Blank blanks)
    (hstarts : ∀ c ∈ text.head?, isBlank c = false) :
    (blanks ++ text).dropWhile isBlank = text := by
  rw [List.dropWhile_append_of_pos hblanks]
  cases text with
  | nil => rfl
  | cons c rest => simp [hstarts c rfl]

theorem isBlank_head?_dropWhile (text : List Char) :
    ∀ c ∈ (text.dropWhile isBlank).head?, isBlank c = false := by
  intro c hc
  have hhead := List.head?_dropWhile_not isBlank text
  rwa [Option.mem_def.mp hc] at hhead

/-- After the blanks in front are gone, trimming takes blanks from the end. -/
theorem trim_append_rtakeWhile (text : List Char) :
    trim text ++ (text.dropWhile isBlank).rtakeWhile isBlank = text.dropWhile isBlank :=
  List.rdropWhile_append_rtakeWhile

theorem trimmed_trim (text : List Char) : Trimmed text (trim text) where
  parts := by
    refine ⟨text.takeWhile isBlank, (text.dropWhile isBlank).rtakeWhile isBlank, ?_,
      fun c hc => List.mem_takeWhile_imp hc, fun c hc => List.mem_rtakeWhile_imp hc⟩
    rw [List.append_assoc, trim_append_rtakeWhile, List.takeWhile_append_dropWhile]
  starts c hc := by
    apply isBlank_head?_dropWhile text
    rw [← trim_append_rtakeWhile, List.head?_append, Option.mem_def.mp hc]
    rfl
  ends := by
    rw [trim, List.getLast?_reverse]
    exact isBlank_head?_dropWhile _

/-- There is one way to trim a text. -/
theorem trim_eq_iff {text core : List Char} : trim text = core ↔ Trimmed text core := by
  constructor
  · rintro rfl
    exact trimmed_trim text
  · rintro ⟨⟨before, after, rfl, hbefore, hafter⟩, hstarts, hends⟩
    cases core with
    | nil =>
      have hall : (before ++ [] ++ after).dropWhile isBlank = [] := by
        rw [List.append_nil, List.dropWhile_eq_nil_iff]
        exact List.forall_mem_append.mpr ⟨hbefore, hafter⟩
      rw [trim, hall]
      rfl
    | cons first rest =>
      have hreversed : Blank after.reverse := fun c hc => hafter c (List.mem_reverse.mp hc)
      have hlast : ∀ c ∈ (first :: rest).reverse.head?, isBlank c = false := by
        rwa [List.head?_reverse]
      have hcore : (before ++ ((first :: rest) ++ after)).dropWhile isBlank = (first :: rest) ++ after :=
        dropWhile_blank_append hbefore hstarts
      rw [trim, List.append_assoc, hcore, List.reverse_append,
        dropWhile_blank_append hreversed hlast, List.reverse_reverse]

/-- A text that has no blanks is what is left between blanks. -/
theorem trim_between_blanks {before core after : List Char} (hbefore : Blank before)
    (hcore : ∀ c ∈ core, isBlank c = false) (hafter : Blank after) :
    trim (before ++ core ++ after) = core :=
  trim_eq_iff.mpr ⟨⟨before, after, rfl, hbefore, hafter⟩,
    fun c hc => hcore c (List.mem_of_head? hc), fun c hc => hcore c (List.mem_of_getLast? hc)⟩

end Text

namespace Integer

open Text

/-- The number that decimal digits denote, the most significant one first. -/
def decimal (digits : List Char) : Nat := Nat.ofDigits 10 (digits.map digitValue).reverse

/-- A written integer and the whole number that it denotes: one or more decimal digits, which may
    have one sign in front of them. -/
inductive Spells : List Char → Int → Prop where
  | unsigned {digits : List Char} (hdigits : Numeral digits) (hsome : digits ≠ []) :
    Spells digits (decimal digits)
  | plus {digits : List Char} (hdigits : Numeral digits) (hsome : digits ≠ []) :
    Spells ('+' :: digits) (decimal digits)
  | minus {digits : List Char} (hdigits : Numeral digits) (hsome : digits ≠ []) :
    Spells ('-' :: digits) (-(decimal digits : Int))

/-- Digits spell the number that they denote. -/
theorem spelled_eq_decimal (digits : List Char) : spelled 0 digits = decimal digits := by
  induction digits using List.reverseRecOn with
  | nil => rfl
  | append_singleton front last ih =>
    have hfront : (front ++ [last]).foldl (fun value c => value * 10 + digitValue c) 0 =
        spelled 0 front * 10 + digitValue last := List.foldl_concat ..
    rw [spelled, hfront, ih]
    simp [decimal, Nat.ofDigits_cons]
    ring

/-- A text spells an integer by what is left of it without a sign. -/
theorem spells_iff {text : List Char} {number : Int} :
    Spells text number ↔ Numeral (splitSign text).2 ∧ (splitSign text).2 ≠ [] ∧
      number = if (splitSign text).1 then -(decimal (splitSign text).2 : Int)
        else decimal (splitSign text).2 := by
  constructor
  · rintro (⟨hdigits, hsome⟩ | ⟨hdigits, hsome⟩ | ⟨hdigits, hsome⟩)
    · rw [splitSign_of_numeral hdigits]
      exact ⟨hdigits, hsome, rfl⟩
    · exact ⟨hdigits, hsome, rfl⟩
    · exact ⟨hdigits, hsome, rfl⟩
  · unfold splitSign
    split
    · rintro ⟨hdigits, hsome, rfl⟩
      exact .minus hdigits hsome
    · rintro ⟨hdigits, hsome, rfl⟩
      exact .plus hdigits hsome
    · rintro ⟨hdigits, hsome, rfl⟩
      exact .unsigned hdigits hsome

/-- A written integer has no blanks. -/
theorem Spells.unblank {text : List Char} {number : Int} (hspells : Spells text number) :
    ∀ c ∈ text, isBlank c = false := by
  cases hspells with
  | unsigned hdigits _ => exact hdigits.unblank
  | plus hdigits _ => exact List.forall_mem_cons.mpr ⟨by decide, hdigits.unblank⟩
  | minus hdigits _ => exact List.forall_mem_cons.mpr ⟨by decide, hdigits.unblank⟩

/-- Reading finds the integer that a text spells, if it is in range. -/
theorem read?_eq_some_iff {text : List Char} {n : Int64} :
    read? text = some n ↔ Spells text n.toInt := by
  rw [spells_iff, read?]
  obtain ⟨negative, digits⟩ := splitSign text
  simp only [digitsValue_eq, spelled_eq_decimal]
  by_cases hnumeral : Numeral digits ∧ digits ≠ []
  · have hall : (digits.isEmpty || !digits.all Char.isDigit) = false := by
      simpa [Numeral, and_comm] using hnumeral
    rw [hall, if_neg Bool.false_ne_true]
    generalize (if negative then -(decimal digits : Int) else decimal digits) = number
    constructor
    · intro hword
      by_cases hrange : InRange number
      · obtain ⟨k, hk, hexact⟩ := ofInt?_of_inRange hrange
        obtain rfl := Option.some.inj (hk.symm.trans hword)
        exact ⟨hnumeral.1, hnumeral.2, hexact⟩
      · rw [ofInt?_eq_none hrange] at hword
        cases hword
    · rintro ⟨-, -, rfl⟩
      obtain ⟨k, hk, hexact⟩ := ofInt?_of_inRange ⟨n.le_toInt, n.toInt_lt⟩
      rw [hk, Int64.toInt_inj.mp hexact]
  · have hany : (digits.isEmpty || !digits.all Char.isDigit) = true := by
      simp only [Numeral, not_and_or, ne_eq, not_not] at hnumeral
      simpa [or_comm] using hnumeral
    rw [hany, if_pos rfl]
    exact iff_of_false nofun fun hspells => hnumeral ⟨hspells.1, hspells.2.1⟩

/-- The digits of an integer, with a sign below zero, spell it. -/
theorem spells_write (n : Int64) : Spells (write n) n.toInt := by
  have hdigits := numeral_toDigits n.toInt.natAbs
  have hsome := toDigits_ne_nil n.toInt.natAbs
  have hsize : decimal (Nat.toDigits 10 n.toInt.natAbs) = n.toInt.natAbs := by
    rw [← spelled_eq_decimal, spelled_toDigits]
  rw [write]
  split
  · have hspells := Spells.minus hdigits hsome
    rwa [hsize, show -(n.toInt.natAbs : Int) = n.toInt by omega] at hspells
  · have hspells := Spells.unsigned hdigits hsome
    rwa [hsize, show (n.toInt.natAbs : Int) = n.toInt by omega] at hspells

end Integer

namespace Value

open Text Integer

/-- What a text counts as, whichever integer it spells between its blanks. -/
theorem textToInteger_eq_ok_iff {text : String} {n : Int64} :
    Cast.textToInteger text = .ok n ↔
      ∃ core, Trimmed text.toList core ∧ Spells core n.toInt := by
  have hread : Cast.textToInteger text = .ok n ↔ read? (trim text.toList) = some n := by
    rw [Cast.textToInteger]
    cases read? (trim text.toList) <;> simp
  rw [hread, read?_eq_some_iff]
  constructor
  · exact fun hspells => ⟨_, trimmed_trim _, hspells⟩
  · rintro ⟨core, htrimmed, hspells⟩
    rwa [trim_eq_iff.mpr htrimmed]

/-- A text counts as the integer that it spells between its blanks: an optional sign, one or more
    decimal digits, leading zeros included, and a number in range. Every other text is refused and
    quoted as it is, blanks included. So the text of an integer counts as that integer, whatever
    blanks are put around it. -/
theorem integer_text_exact :
    (∀ text : String,
      (∀ n, Cast.textToInteger text = .ok n ↔
        ∃ core, Trimmed text.toList core ∧ Spells core n.toInt) ∧
      ((∀ core number, Trimmed text.toList core → Spells core number → ¬ InRange number) →
        Cast.textToInteger text = .error (.invalidCast ("\"" ++ text ++ "\"") "an integer")) ∧
      ∀ isConst, toInteger ⟨.string text, isConst⟩ = Cast.textToInteger text) ∧
    ∀ (n : Int64) (isConst : Bool) (before after : String), Blank before.toList →
      Blank after.toList → ∃ text, toText ⟨.integer n, isConst⟩ = .ok text ∧
        Cast.textToInteger (before ++ text ++ after) = .ok n := by
  refine ⟨fun text => ⟨fun n => textToInteger_eq_ok_iff, fun hrefused => ?_, fun _ => rfl⟩, ?_⟩
  · cases hread : read? (trim text.toList) with
    | none => rw [Cast.textToInteger, hread, Cast.quoteText]
    | some n =>
      exact absurd ⟨n.le_toInt, n.toInt_lt⟩
        (hrefused _ _ (trimmed_trim _) (read?_eq_some_iff.mp hread))
  · intro n isConst before after hbefore hafter
    refine ⟨String.ofList (write n), rfl, ?_⟩
    rw [Cast.textToInteger, String.toList_append, String.toList_append, String.toList_ofList,
      trim_between_blanks hbefore (spells_write n).unblank hafter,
      read?_eq_some_iff.mpr (spells_write n)]

/-- The least integer, which has no opposite, reads back from between blanks of several kinds. -/
theorem integer_text_between_blanks :
    Blank "\u2003\t".toList ∧ Blank "\u3000".toList ∧
      ∃ text, toText ⟨.integer Int64.minValue, false⟩ = .ok text ∧
        Cast.textToInteger ("\u2003\t" ++ text ++ "\u3000") = .ok Int64.minValue := by
  have hbefore : Blank "\u2003\t".toList := List.all_eq_true.mp (by decide +kernel)
  have hafter : Blank "\u3000".toList := List.all_eq_true.mp (by decide +kernel)
  exact ⟨hbefore, hafter, integer_text_exact.2 Int64.minValue false _ _ hbefore hafter⟩

-- Leading zeros do not matter, and a sign alone is no integer.
example : Cast.textToInteger "\u2003\t-0000000000000000000009223372036854775808\u3000" =
      .ok Int64.minValue ∧
    Cast.textToInteger " +9223372036854775808" =
      .error (.invalidCast "\" +9223372036854775808\"" "an integer") ∧
    Cast.textToInteger "-\u00A0" = .error (.invalidCast "\"-\u00A0\"" "an integer") := by
  decide +kernel

end Value

end InterpreterCore
