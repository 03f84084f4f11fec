import ChurchStore.Text.Word
import Mathlib.Algebra.Group.Nat.Defs

/-!
# Decimal digits

Texts of decimal digits and the numbers that they stand for. A number has one numeral, the text
without superfluous zeros before it, and one text in each column that is wide enough for it. Writing
a number finds these texts, and the number can be read from them again.
-/

namespace ChurchStore.Text

/-- Nothing but decimal digits. -/
def IsDecimal (s : String) : Prop := ∀ c ∈ s.toList, c.isDigit

/-- The number that decimal digits stand for. -/
def decimal (s : String) : Nat := Nat.ofDigitChars 10 s.toList 0

/-- Decimal digits of which the first is no zero, or zero itself. -/
structure IsNumeral (s : String) : Prop where
  digits : IsDecimal s
  ne_empty : s ≠ ""
  eq_zero : s.toList.head? = some '0' → s = "0"

/-- As many decimal digits as a column is wide. -/
structure IsColumn (width : Nat) (s : String) : Prop where
  digits : IsDecimal s
  length_eq : s.length = width

variable {c : Char} {cs ds : List Char} {s t : String} {width n acc : Nat}

/-! ## Reading digits -/

theorem exists_digitChar (h : c.isDigit) : ∃ d < 10, c = Nat.digitChar d := by
  have hzero : '0'.toNat = 48 := rfl
  have hnine : '9'.toNat = 57 := rfl
  have hc := Char.isDigit_iff_toNat.1 h
  have hlt : c.toNat - 48 < 10 := by omega
  refine ⟨c.toNat - 48, hlt, ?_⟩
  rw [← Char.toNat_inj, Nat.toNat_digitChar_of_lt_ten hlt]
  omega

theorem ofDigitChars_lt (h : ∀ c ∈ cs, c.isDigit) : Nat.ofDigitChars 10 cs 0 < 10 ^ cs.length := by
  induction cs with
  | nil => simp
  | cons c cs ih =>
    obtain ⟨d, hd, rfl⟩ := exists_digitChar (h c (List.mem_cons_self ..))
    have hrest := ih fun e he => h e (List.mem_cons_of_mem _ he)
    rw [Nat.ofDigitChars_cons_digitChar_of_lt_ten hd, Nat.ofDigitChars_eq_ofDigitChars_zero]
    calc 10 ^ cs.length * (10 * 0 + d) + Nat.ofDigitChars 10 cs 0
      _ < 10 ^ cs.length * d + 10 ^ cs.length := by simpa using hrest
      _ = 10 ^ cs.length * (d + 1) := (Nat.mul_succ ..).symm
      _ ≤ 10 ^ cs.length * 10 := Nat.mul_le_mul_left _ hd

/-- Digits read on behind a number stand behind the digits of that number. Behind zero this fails,
whose own digit is not written before others. -/
theorem toDigits_ofDigitChars (hacc : 0 < acc) (h : ∀ c ∈ cs, c.isDigit) :
    Nat.toDigits 10 (Nat.ofDigitChars 10 cs acc) = Nat.toDigits 10 acc ++ cs := by
  induction cs generalizing acc with
  | nil => simp
  | cons c cs ih =>
    obtain ⟨d, hd, rfl⟩ := exists_digitChar (h c (List.mem_cons_self ..))
    have hrest := fun e he => h e (List.mem_cons_of_mem _ he)
    rw [Nat.ofDigitChars_cons_digitChar_of_lt_ten hd, ih (by omega) hrest,
      ← Nat.toDigits_append_toDigits (by omega) hacc hd, Nat.toDigits_of_lt_base hd]
    simp

/-- As many digits that stand for the same number are the same digits. -/
theorem eq_of_ofDigitChars_eq (hcs : ∀ c ∈ cs, c.isDigit) (hds : ∀ c ∈ ds, c.isDigit)
    (hlength : cs.length = ds.length)
    (h : Nat.ofDigitChars 10 cs 0 = Nat.ofDigitChars 10 ds 0) : cs = ds := by
  -- Behind a one all digits count, also the zeros at the front.
  have hone : Nat.ofDigitChars 10 cs 1 = Nat.ofDigitChars 10 ds 1 := by
    rw [Nat.ofDigitChars_eq_ofDigitChars_zero, h, hlength, ← Nat.ofDigitChars_eq_ofDigitChars_zero]
  have hdigits := congrArg (Nat.toDigits 10) hone
  rw [toDigits_ofDigitChars Nat.one_pos hcs, toDigits_ofDigitChars Nat.one_pos hds] at hdigits
  exact List.append_cancel_left hdigits

/-- A blank ends the digits before it. -/
theorem append_blank_inj {rest rest' : List Char} (hcs : ∀ c ∈ cs, c.isDigit)
    (hds : ∀ c ∈ ds, c.isDigit) (h : cs ++ ' ' :: rest = ds ++ ' ' :: rest') :
    cs = ds ∧ rest = rest' := by
  have hdigits : cs = ds := by
    have htaken := congrArg (List.takeWhile Char.isDigit) h
    rw [List.takeWhile_append_of_pos hcs, List.takeWhile_append_of_pos hds] at htaken
    simpa using htaken
  subst hdigits
  simpa using h

/-! ## Numerals -/

theorem toList_toString (n : Nat) : (toString n).toList = Nat.toDigits 10 n := by
  rw [Nat.toString_eq_repr, Nat.toList_repr]

theorem isDecimal_toString (n : Nat) : IsDecimal (toString n) := by
  intro c hc
  rw [toList_toString] at hc
  exact Nat.isDigit_of_mem_toDigits (by omega) (by omega) hc

@[simp]
theorem decimal_toString (n : Nat) : decimal (toString n) = n := by
  rw [decimal, toList_toString, Nat.ofDigitChars_ten_toDigits]

/-- Digits behind a zero would make a number with fewer digits. -/
theorem eq_nil_of_toDigits_eq_cons_zero (h : Nat.toDigits 10 n = '0' :: cs) : cs = [] := by
  have hdigits : ∀ c ∈ cs, c.isDigit := by
    intro c hc
    apply Nat.isDigit_of_mem_toDigits (b := 10) (n := n) (by omega) (by omega)
    rw [h]
    exact List.mem_cons_of_mem _ hc
  have hvalue : Nat.ofDigitChars 10 cs 0 = n := by
    rw [← @Nat.ofDigitChars_ten_toDigits n, h, Nat.ofDigitChars_cons]
    rfl
  by_cases hnil : cs = []
  · exact hnil
  · have hshorter : (Nat.toDigits 10 n).length ≤ cs.length := by
      rw [Nat.length_toDigits_le_iff (by omega) (List.length_pos_iff.2 hnil), ← hvalue]
      exact ofDigitChars_lt hdigits
    rw [h, List.length_cons] at hshorter
    omega

/-- A number is written as a numeral. -/
theorem isNumeral_toString (n : Nat) : IsNumeral (toString n) where
  digits := isDecimal_toString n
  ne_empty := by
    intro h
    apply @Nat.toDigits_ne_nil n 10
    rw [← toList_toString, h]
    rfl
  eq_zero := by
    intro hzero
    rw [← String.toList_inj, toList_toString]
    rw [toList_toString] at hzero
    obtain ⟨cs, hcs⟩ := List.head?_eq_some_iff.1 hzero
    rw [hcs, eq_nil_of_toDigits_eq_cons_zero hcs]
    rfl

/-- A number has no other numeral than the one that it is written as. -/
theorem IsNumeral.toString_decimal (h : IsNumeral s) : toString (decimal s) = s := by
  cases hs : s.toList with
  | nil => exact absurd (String.toList_inj.1 hs) h.ne_empty
  | cons c cs =>
    have hdigits := h.digits
    rw [IsDecimal, hs] at hdigits
    obtain ⟨d, hd, rfl⟩ := exists_digitChar (hdigits c (List.mem_cons_self ..))
    rcases Nat.eq_zero_or_pos d with rfl | hpos
    · rw [h.eq_zero (by rw [hs]; rfl)]
      rfl
    · have hrest := fun e he => hdigits e (List.mem_cons_of_mem _ he)
      rw [← String.toList_inj, toList_toString, decimal, hs,
        Nat.ofDigitChars_cons_digitChar_of_lt_ten hd, toDigits_ofDigitChars (by omega) hrest,
        Nat.mul_zero, Nat.zero_add, Nat.toDigits_of_lt_base hd]
      rfl

/-! ## Columns -/

theorem toList_zeroPadded (width n : Nat) :
    (zeroPadded width n).toList = (Nat.toDigits 10 n).leftpad width '0' :=
  String.toList_ofList

/-- No digit is lost in a column, however narrow it is. -/
@[simp]
theorem decimal_zeroPadded (width n : Nat) : decimal (zeroPadded width n) = n := by
  rw [decimal, toList_zeroPadded, List.leftpad, Nat.ofDigitChars_append,
    Nat.ofDigitChars_replicate_zero, Nat.mul_zero, Nat.ofDigitChars_ten_toDigits]

theorem isDecimal_zeroPadded (width n : Nat) : IsDecimal (zeroPadded width n) := by
  intro c hc
  rw [toList_zeroPadded, List.leftpad, List.mem_append] at hc
  rcases hc with hc | hc
  · rw [List.eq_of_mem_replicate hc]
    rfl
  · exact Nat.isDigit_of_mem_toDigits (by omega) (by omega) hc

/-- A number with no more digits than a column is wide fills the column. -/
theorem isColumn_zeroPadded (hwidth : 0 < width) (h : n < 10 ^ width) :
    IsColumn width (zeroPadded width n) where
  digits := isDecimal_zeroPadded width n
  length_eq := by
    rw [← String.length_toList, toList_zeroPadded, List.length_leftpad]
    exact Nat.max_eq_left ((Nat.length_toDigits_le_iff (by omega) hwidth).2 h)

namespace IsColumn

theorem length_toList (h : IsColumn width s) : s.toList.length = width := by
  rw [String.length_toList, h.length_eq]

theorem decimal_lt (h : IsColumn width s) : decimal s < 10 ^ width := by
  rw [← h.length_toList]
  exact ofDigitChars_lt h.digits

/-- A number fills a column in one way only. -/
theorem eq_of_decimal_eq (hs : IsColumn width s) (ht : IsColumn width t)
    (h : decimal s = decimal t) : s = t := by
  have hlength := hs.length_toList.trans ht.length_toList.symm
  exact String.toList_inj.1 (eq_of_ofDigitChars_eq hs.digits ht.digits hlength h)

theorem zeroPadded_decimal (hwidth : 0 < width) (h : IsColumn width s) :
    zeroPadded width (decimal s) = s := by
  apply (isColumn_zeroPadded hwidth h.decimal_lt).eq_of_decimal_eq h
  exact decimal_zeroPadded width (decimal s)

end IsColumn

end ChurchStore.Text
