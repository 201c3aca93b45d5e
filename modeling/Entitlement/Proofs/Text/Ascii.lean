import Mathlib.Data.List.Basic
import Entitlement.Text.Bytes

/-! # Bytes of ASCII texts

An ASCII character is written as the one byte of its code point, and every byte of any other
character lies above the ASCII range. So whoever looks for an ASCII byte in a text never finds it
inside another character.
-/

namespace Entitlement.Text

/-- A character of the ASCII range. -/
def IsAscii (c : Char) : Prop := c.toNat < 128

instance (c : Char) : Decidable (IsAscii c) := inferInstanceAs (Decidable (c.toNat < 128))

theorem toNat_toUInt8 {c : Char} (hc : IsAscii c) : c.toUInt8.toNat = c.toNat := by
  have hval : c.toUInt8.toNat = c.toNat % 256 := rfl
  have hlt : c.toNat < 128 := hc
  omega

theorem ofNat_toUInt8 {c : Char} (hc : IsAscii c) : Char.ofNat c.toUInt8.toNat = c := by
  rw [toNat_toUInt8 hc, Char.ofNat_toNat]

theorem utf8EncodeChar_of_isAscii {c : Char} (hc : IsAscii c) :
    String.utf8EncodeChar c = [c.toUInt8] := by
  have hlt : c.toNat < 128 := hc
  have hle : c.val.toNat ≤ 0x7f := Nat.le_of_lt_succ hlt
  unfold String.utf8EncodeChar
  simp only [if_pos hle]
  rfl

/-- The bytes of an ASCII text are the code points of its characters. -/
theorem bytes_ofList_of_isAscii {cs : List Char} (hcs : ∀ c ∈ cs, IsAscii c) :
    bytes (String.ofList cs) = cs.map Char.toUInt8 := by
  rw [bytes_ofList]
  induction cs with
  | nil => rfl
  | cons c cs ih =>
      rw [List.flatMap_cons, utf8EncodeChar_of_isAscii (hcs c List.mem_cons_self),
        ih fun other hother => hcs other (List.mem_cons_of_mem _ hother)]
      rfl

/-- No byte of a character beyond the ASCII range is an ASCII byte. -/
theorem le_toNat_of_mem_utf8EncodeChar {c : Char} (hc : ¬ IsAscii c) {b : UInt8}
    (hb : b ∈ String.utf8EncodeChar c) : 128 ≤ b.toNat := by
  have hgt : ¬ c.val.toNat ≤ 0x7f := fun hle => hc (Nat.lt_succ_of_le hle)
  -- Two, three or four bytes, each with its highest bit set.
  unfold String.utf8EncodeChar at hb
  simp only [if_neg hgt] at hb
  split at hb
  next =>
    simp only [List.mem_cons, List.not_mem_nil, or_false] at hb
    rcases hb with rfl | rfl <;> rw [UInt8.toNat_ofNat'] <;> omega
  next =>
    split at hb
    next =>
      simp only [List.mem_cons, List.not_mem_nil, or_false] at hb
      rcases hb with rfl | rfl | rfl <;> rw [UInt8.toNat_ofNat'] <;> omega
    next =>
      simp only [List.mem_cons, List.not_mem_nil, or_false] at hb
      rcases hb with rfl | rfl | rfl | rfl <;> rw [UInt8.toNat_ofNat'] <;> omega

end Entitlement.Text
