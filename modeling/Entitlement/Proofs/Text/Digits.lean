import Mathlib.Data.List.TakeWhile
import Mathlib.Tactic.Ring
import Entitlement.Text.Blank
import Entitlement.Text.Bytes
import Entitlement.Proofs.Text.Ascii

/-! # Decimal digits as bytes

A number is written as a run of digits, and digits denote a number again: writing a number, with or
without zeros in front of it, and reading its digits gives the number back.
-/

namespace Entitlement.Text

/-- A decimal digit. -/
def IsDigit (b : UInt8) : Prop := 48 ≤ b.toNat ∧ b.toNat ≤ 57

theorem isDigit_iff {b : UInt8} : isDigit b = true ↔ IsDigit b := by
  simp only [isDigit, Bool.and_eq_true, decide_eq_true_eq, UInt8.le_iff_toNat_le]
  rfl

/-- The value of digits that follow other digits, whose value is given. -/
def digitValue (value : Nat) (digits : List UInt8) : Nat :=
  digits.foldl (fun value b => value * 10 + (b.toNat - 48)) value

@[simp] theorem digitValue_nil (value : Nat) : digitValue value [] = value := by
  rw [digitValue, List.foldl_nil]

@[simp] theorem digitValue_cons (value : Nat) (b : UInt8) (digits : List UInt8) :
    digitValue value (b :: digits) = digitValue (value * 10 + (b.toNat - 48)) digits := by
  rw [digitValue, List.foldl_cons, ← digitValue]

theorem digitValue_append (value : Nat) (a b : List UInt8) :
    digitValue value (a ++ b) = digitValue (digitValue value a) b :=
  List.foldl_append

/-- The digits before a run of digits only shift their value. -/
theorem digitValue_eq (value : Nat) (digits : List UInt8) :
    digitValue value digits = value * 10 ^ digits.length + digitValue 0 digits := by
  induction digits generalizing value with
  | nil => simp
  | cons b digits ih =>
      rw [digitValue_cons, ih, digitValue_cons, ih (0 * 10 + _), List.length_cons, Nat.pow_succ]
      ring

theorem le_digitValue (value : Nat) (digits : List UInt8) : value ≤ digitValue value digits := by
  rw [digitValue_eq]
  exact Nat.le_add_right_of_le (Nat.le_mul_of_pos_right _ (Nat.pow_pos (by decide)))

theorem digitValue_replicate_zero (value count : Nat) :
    digitValue value (List.replicate count '0'.toUInt8) = value * 10 ^ count := by
  induction count generalizing value with
  | zero => simp
  | succ count ih =>
      have hzero : '0'.toUInt8.toNat = 48 := rfl
      rw [List.replicate_succ, digitValue_cons, ih, hzero, Nat.pow_succ]
      ring

/-- A scan that stops at the first entry without some property stops where a run of entries with the
property ends. -/
theorem span_append {α : Type} {p : α → Bool} {run rest : List α} (hrun : ∀ b ∈ run, p b = true)
    (hrest : ∀ b more, rest = b :: more → p b = false) :
    (run ++ rest).takeWhile p = run ∧ (run ++ rest).dropWhile p = rest := by
  rw [List.takeWhile_append_of_pos hrun, List.dropWhile_append_of_pos hrun]
  cases rest with
  | nil => simp
  | cons b more => simp [hrest b more rfl]

/-- Digits that denote a number. -/
structure Denotes (digits : List UInt8) (n : Nat) : Prop where
  isDigit : ∀ b ∈ digits, IsDigit b
  value_eq : digitValue 0 digits = n

/-! ## Characters and bytes -/

theorem isAscii_of_isDigit {c : Char} (hc : c.isDigit = true) : IsAscii c := by
  simp only [Char.isDigit, Bool.and_eq_true, decide_eq_true_eq] at hc
  have hle : c.toNat ≤ 57 := hc.2
  exact Nat.lt_of_le_of_lt hle (by decide)

theorem isDigit_toUInt8 {c : Char} (hc : c.isDigit = true) : IsDigit c.toUInt8 := by
  have hascii := isAscii_of_isDigit hc
  simp only [Char.isDigit, Bool.and_eq_true, decide_eq_true_eq] at hc
  rw [IsDigit, toNat_toUInt8 hascii]
  exact hc

/-- Digits have the same value as characters and as bytes. -/
theorem digitValue_map {cs : List Char} (hcs : ∀ c ∈ cs, c.isDigit = true) (value : Nat) :
    digitValue value (cs.map Char.toUInt8) = Nat.ofDigitChars 10 cs value := by
  induction cs generalizing value with
  | nil => simp
  | cons c cs ih =>
      have hc := toNat_toUInt8 (isAscii_of_isDigit (hcs c List.mem_cons_self))
      have hzero : '0'.toNat = 48 := rfl
      rw [List.map_cons, digitValue_cons, Nat.ofDigitChars_cons, hc, hzero, Nat.mul_comm value 10]
      exact ih (fun other hother => hcs other (List.mem_cons_of_mem _ hother)) _

theorem denotes_of_isDigit {cs : List Char} {n : Nat} (hcs : ∀ c ∈ cs, c.isDigit = true)
    (hvalue : Nat.ofDigitChars 10 cs 0 = n) : Denotes (bytes (String.ofList cs)) n := by
  rw [bytes_ofList_of_isAscii fun c hc => isAscii_of_isDigit (hcs c hc)]
  refine ⟨fun b hb => ?_, (digitValue_map hcs 0).trans hvalue⟩
  obtain ⟨c, hc, rfl⟩ := List.mem_map.mp hb
  exact isDigit_toUInt8 (hcs c hc)

/-! ## Numbers as texts -/

theorem isDigit_of_mem_digits {n : Nat} {c : Char} (hc : c ∈ Nat.toDigits 10 n) :
    c.isDigit = true :=
  Nat.isDigit_of_mem_toDigits (by decide) (by decide) hc

theorem denotes_toString (n : Nat) : Denotes (bytes (toString n)) n := by
  rw [Nat.toString_eq_ofList_toDigits]
  exact denotes_of_isDigit (fun _ hc => isDigit_of_mem_digits hc) Nat.ofDigitChars_ten_toDigits

theorem padded_eq_ofList (width n : Nat) :
    padded width n = String.ofList
      (List.replicate (width - (Nat.toDigits 10 n).length) '0' ++ Nat.toDigits 10 n) := by
  rw [String.ofList_append]
  simp only [padded, Nat.toString_eq_ofList_toDigits, String.length_ofList]

theorem isDigit_of_mem_padded {width n : Nat} {c : Char} (hc : c ∈ (padded width n).toList) :
    c.isDigit = true := by
  rw [padded_eq_ofList, String.toList_ofList, List.mem_append] at hc
  rcases hc with hc | hc
  · rw [List.eq_of_mem_replicate hc]
    rfl
  · exact isDigit_of_mem_digits hc

theorem denotes_padded (width n : Nat) : Denotes (bytes (padded width n)) n := by
  rw [← String.ofList_toList (s := padded width n)]
  refine denotes_of_isDigit (fun _ hc => isDigit_of_mem_padded hc) ?_
  rw [padded_eq_ofList, String.toList_ofList, Nat.ofDigitChars_append,
    Nat.ofDigitChars_replicate_zero, Nat.mul_zero, Nat.ofDigitChars_ten_toDigits]

theorem length_toList_padded {width n : Nat} (hpos : 0 < width) (hn : n < 10 ^ width) :
    (padded width n).toList.length = width := by
  have hle := (Nat.length_toDigits_le_iff (b := 10) (by decide) hpos).mpr hn
  rw [padded_eq_ofList, String.toList_ofList, List.length_append, List.length_replicate]
  omega

theorem length_bytes_padded {width n : Nat} (hpos : 0 < width) (hn : n < 10 ^ width) :
    (bytes (padded width n)).length = width := by
  rw [← String.ofList_toList (s := padded width n),
    bytes_ofList_of_isAscii fun c hc => isAscii_of_isDigit (isDigit_of_mem_padded hc),
    List.length_map]
  exact length_toList_padded hpos hn

end Entitlement.Text
