import Mathlib.Data.List.Lex

namespace InterpreterCore.Text

/-- The bytes of a text in UTF-8. -/
def utf8 (text : String) : List UInt8 := text.toByteArray.data.toList

/-- A code without the given number of groups of six bits at its end. -/
def leading : Nat → Nat → Nat
  | 0, code => code
  | groups + 1, code => leading groups (code / 64)

/-- A code as bytes: a marked one for what is in front, then one for each of the given number of
    groups of six bits. -/
def grouped (mark : Nat) : Nat → Nat → List UInt8
  | 0, code => [UInt8.ofNat (mark + code)]
  | groups + 1, code => grouped mark groups (code / 64) ++ [UInt8.ofNat (128 + code % 64)]

/-- How many groups follow the first byte of a character. -/
def groups (code : Nat) : Nat :=
  if code ≤ 0x7f then 0 else if code ≤ 0x7ff then 1 else if code ≤ 0xffff then 2 else 3

/-- The mark of a first byte that the given number of groups follow. -/
def mark : Nat → Nat
  | 0 => 0
  | 1 => 0xc0
  | 2 => 0xe0
  | 3 => 0xf0
  | _ => 0xf8

theorem toNat_lt (c : Char) : c.toNat < 0x110000 := by
  have hvalid := c.valid
  simp only [UInt32.isValidChar, Nat.isValidChar] at hvalid
  rw [Char.toNat]
  omega

theorem utf8EncodeChar_eq_grouped (c : Char) :
    String.utf8EncodeChar c = grouped (mark (groups c.toNat)) (groups c.toNat) c.toNat := by
  have hcode := toNat_lt c
  rw [Char.toNat] at hcode ⊢
  unfold String.utf8EncodeChar groups
  generalize c.val.toNat = code at hcode ⊢
  dsimp only
  have hgroup : ∀ n, n % 0x40 + 0x80 = 128 + n % 64 := fun n => Nat.add_comm ..
  split
  · simp only [grouped, mark, Nat.zero_add]
  · split
    · have hlead : code / 64 % 0x20 + 0xc0 = 0xc0 + code / 64 := by omega
      rw [hlead, hgroup]
      rfl
    · split
      · have hlead : code / 4096 % 0x10 + 0xe0 = 0xe0 + code / 64 / 64 := by omega
        rw [hlead, hgroup, hgroup]
        rfl
      · have hlead : code / 262144 % 0x08 + 0xf0 = 0xf0 + code / 64 / 64 / 64 := by omega
        have hdiv : code / 4096 = code / 64 / 64 := by omega
        rw [hlead, hgroup, hgroup, hgroup, hdiv]
        rfl

/-- The first byte of a character shows how many groups follow it. -/
theorem mark_add_leading_lt {code : Nat} (hcode : code < 0x110000) :
    mark (groups code) + leading (groups code) code < mark (groups code + 1) := by
  unfold groups
  split
  · simp only [mark, leading]
    omega
  · split
    · simp only [mark, leading]
      omega
    · split <;> simp only [mark, leading] <;> omega

theorem groups_mono {code other : Nat} (hle : code ≤ other) : groups code ≤ groups other := by
  grind [groups]

theorem mark_mono {m n : Nat} (hle : m ≤ n) : mark m ≤ mark n := by
  induction hle with
  | refl => exact Nat.le_refl _
  | @step n _ ih =>
    refine Nat.le_trans ih ?_
    match n with
    | 0 | 1 | 2 | 3 => decide
    | _ + 4 => exact Nat.le_refl _

theorem mark_le (n : Nat) : mark n ≤ 0xf8 := by
  unfold mark
  split <;> omega

theorem ofNat_lt_ofNat {x y : Nat} (hlt : x < y) (hy : y < 256) :
    UInt8.ofNat x < UInt8.ofNat y := by
  rw [UInt8.lt_iff_toNat_lt, UInt8.toNat_ofNat', UInt8.toNat_ofNat']
  omega

theorem grouped_eq_cons (mark groups code : Nat) :
    ∃ rest, grouped mark groups code = UInt8.ofNat (mark + leading groups code) :: rest := by
  induction groups generalizing code with
  | zero => exact ⟨[], rfl⟩
  | succ groups ih =>
    obtain ⟨rest, hrest⟩ := ih (code / 64)
    exact ⟨_, congrArg (· ++ _) hrest⟩

/-- Of two codes cut in one way, the larger has the larger byte where the two first differ. -/
theorem grouped_lt {mark groups code other : Nat} (hlt : code < other)
    (hlead : mark + leading groups other < 256) (s t : List UInt8) :
    grouped mark groups code ++ s < grouped mark groups other ++ t := by
  induction groups generalizing code other s t with
  | zero => exact .rel (ofNat_lt_ofNat (Nat.add_lt_add_left hlt mark) hlead)
  | succ groups ih =>
    rw [grouped, grouped, List.append_assoc, List.append_assoc]
    by_cases hfront : code / 64 < other / 64
    · exact ih hfront hlead _ _
    · have hsame : code / 64 = other / 64 := by omega
      rw [hsame]
      exact List.Lex.append_left _ (.rel (ofNat_lt_ofNat (by omega) (by omega))) _

/-- A larger character has the larger byte where the two encodings first differ. -/
theorem utf8EncodeChar_lt {c d : Char} (hlt : c < d) (s t : List UInt8) :
    String.utf8EncodeChar c ++ s < String.utf8EncodeChar d ++ t := by
  rw [utf8EncodeChar_eq_grouped, utf8EncodeChar_eq_grouped]
  have hcodes : c.toNat < d.toNat := hlt
  have hc := mark_add_leading_lt (toNat_lt c)
  have hd := mark_add_leading_lt (toNat_lt d)
  have hbyte := mark_le (groups d.toNat + 1)
  by_cases hgroups : groups c.toNat = groups d.toNat
  · rw [hgroups]
    exact grouped_lt hcodes (by omega) s t
  · have hfewer : groups c.toNat + 1 ≤ groups d.toNat :=
      Nat.lt_of_le_of_ne (groups_mono (Nat.le_of_lt hcodes)) hgroups
    have hmarks := mark_mono hfewer
    obtain ⟨x, hx⟩ := grouped_eq_cons (mark (groups c.toNat)) (groups c.toNat) c.toNat
    obtain ⟨y, hy⟩ := grouped_eq_cons (mark (groups d.toNat)) (groups d.toNat) d.toNat
    rw [hx, hy]
    exact .rel (ofNat_lt_ofNat (by omega) (by omega))

theorem utf8_eq_flatMap (text : String) : utf8 text = text.toList.flatMap String.utf8EncodeChar := by
  rw [utf8, ← String.ofList_toList (s := text), String.toByteArray_ofList, List.utf8Encode,
    List.toList_data_toByteArray, String.ofList_toList]

/-- A text that is smaller, character by character, has the smaller bytes. -/
theorem flatMap_lt_flatMap {a b : List Char} (hlt : a < b) :
    a.flatMap String.utf8EncodeChar < b.flatMap String.utf8EncodeChar := by
  induction hlt with
  | @nil d rest =>
    rw [List.flatMap_nil, List.flatMap_cons]
    cases hbytes : String.utf8EncodeChar d with
    | nil => exact absurd hbytes String.utf8EncodeChar_ne_nil
    | cons byte bytes => exact .nil
  | cons _ ih => exact List.Lex.append_left _ ih _
  | rel hchar => exact utf8EncodeChar_lt hchar ..

theorem utf8_lt_of_lt {a b : String} (hlt : a < b) : utf8 a < utf8 b := by
  rw [utf8_eq_flatMap, utf8_eq_flatMap]
  exact flatMap_lt_flatMap hlt

theorem utf8_inj {a b : String} : utf8 a = utf8 b ↔ a = b := by
  rw [utf8, utf8, Array.toList_inj, ← ByteArray.ext_iff, String.toByteArray_inj]

theorem utf8_lt_iff {a b : String} : utf8 a < utf8 b ↔ a < b := by
  refine ⟨fun hbytes => ?_, utf8_lt_of_lt⟩
  by_contra hnot
  obtain rfl | hgt : a = b ∨ b < a := by
    by_cases hle : a ≤ b
    · exact .inl (String.le_antisymm hle (String.not_lt.mp hnot))
    · exact .inr (String.not_le.mp hle)
  · exact List.lt_irrefl _ hbytes
  · exact List.lt_asymm hbytes (utf8_lt_of_lt hgt)

/-- Texts compare as their bytes do. -/
theorem compare_eq_utf8 (a b : String) :
    Ord.compare a b = compareOfLessAndEq (utf8 a) (utf8 b) := by
  change compareOfLessAndEq a b = _
  simp only [compareOfLessAndEq, utf8_lt_iff, utf8_inj]

end InterpreterCore.Text
