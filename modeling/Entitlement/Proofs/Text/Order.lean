import Mathlib.Data.List.Basic
import Entitlement.Text.Bytes

/-! # The order of texts is the order of their bytes

Texts are compared character by character. UTF-8 encodes a character by more bytes, or by larger
ones, the larger its code point is, so that the bytes of two texts compare as the texts do.
-/

namespace Entitlement.Text

theorem cons_lt_cons {a b : Nat} {as bs : List UInt8} (ha : a < 256) (hb : b < 256) (hle : a ≤ b)
    (htail : a = b → as < bs) : UInt8.ofNat a :: as < UInt8.ofNat b :: bs := by
  rw [List.cons_lt_cons_iff, UInt8.lt_iff_toNat_lt, UInt8.toNat_ofNat', UInt8.toNat_ofNat',
    Nat.mod_eq_of_lt ha, Nat.mod_eq_of_lt hb]
  rcases Nat.lt_or_eq_of_le hle with hlt | rfl
  · exact .inl hlt
  · exact .inr ⟨rfl, htail rfl⟩

theorem cons_lt_cons_of_lt {a b : Nat} {as bs : List UInt8} (hb : b < 256) (hlt : a < b) :
    UInt8.ofNat a :: as < UInt8.ofNat b :: bs :=
  cons_lt_cons (Nat.lt_trans hlt hb) hb (Nat.le_of_lt hlt) fun heq =>
    absurd heq (Nat.ne_of_lt hlt)

/-- The bytes of the smaller of two characters come first, whatever follows them. -/
theorem utf8EncodeChar_append_lt {c d : Char} (hlt : c < d) (xs ys : List UInt8) :
    String.utf8EncodeChar c ++ xs < String.utf8EncodeChar d ++ ys := by
  have hvalue : c.val.toNat < d.val.toNat := hlt
  have hvalid : d.val.toNat < 0xD800 ∨ 0xDFFF < d.val.toNat ∧ d.val.toNat < 0x110000 := d.valid
  unfold String.utf8EncodeChar
  dsimp only
  generalize c.val.toNat = v at hvalue ⊢
  generalize d.val.toNat = w at hvalue hvalid ⊢
  -- A character of fewer bytes starts with a smaller one; otherwise the first byte that differs
  -- decides.
  by_cases hone : v ≤ 0x7f
  · rw [if_pos hone]
    split
    next => exact cons_lt_cons_of_lt (by omega) (by omega)
    next =>
      split
      next => exact cons_lt_cons_of_lt (by omega) (by omega)
      next => split <;> exact cons_lt_cons_of_lt (by omega) (by omega)
  have hone' : ¬ w ≤ 0x7f := by omega
  rw [if_neg hone, if_neg hone']
  by_cases htwo : v ≤ 0x7ff
  · rw [if_pos htwo]
    split
    next =>
      refine cons_lt_cons (by omega) (by omega) (by omega) fun heq => ?_
      exact cons_lt_cons_of_lt (by omega) (by omega)
    next => split <;> exact cons_lt_cons_of_lt (by omega) (by omega)
  have htwo' : ¬ w ≤ 0x7ff := by omega
  rw [if_neg htwo, if_neg htwo']
  by_cases hthree : v ≤ 0xffff
  · rw [if_pos hthree]
    split
    next =>
      refine cons_lt_cons (by omega) (by omega) (by omega) fun heq => ?_
      refine cons_lt_cons (by omega) (by omega) (by omega) fun heq' => ?_
      exact cons_lt_cons_of_lt (by omega) (by omega)
    next => exact cons_lt_cons_of_lt (by omega) (by omega)
  · have hthree' : ¬ w ≤ 0xffff := by omega
    rw [if_neg hthree, if_neg hthree']
    refine cons_lt_cons (by omega) (by omega) (by omega) fun heq => ?_
    refine cons_lt_cons (by omega) (by omega) (by omega) fun heq' => ?_
    refine cons_lt_cons (by omega) (by omega) (by omega) fun heq'' => ?_
    exact cons_lt_cons_of_lt (by omega) (by omega)

theorem utf8EncodeChar_ne_nil (c : Char) : String.utf8EncodeChar c ≠ [] := by
  unfold String.utf8EncodeChar
  dsimp only
  split
  next => exact List.cons_ne_nil _ _
  next => split <;> (try split) <;> exact List.cons_ne_nil _ _

/-- A smaller text has smaller bytes. -/
theorem bytes_lt {a b : String} (hlt : a < b) : bytes a < bytes b := by
  have hlist : a.toList < b.toList := hlt
  rw [bytes_eq_flatMap, bytes_eq_flatMap]
  generalize a.toList = cs at hlist ⊢
  generalize b.toList = ds at hlist ⊢
  clear hlt
  induction cs generalizing ds with
  | nil =>
      cases ds with
      | nil => exact absurd hlist (List.lt_irrefl _)
      | cons d ds =>
          obtain ⟨byte, more, hbytes⟩ := List.exists_cons_of_ne_nil (utf8EncodeChar_ne_nil d)
          rw [List.flatMap_cons, hbytes]
          exact List.nil_lt_cons _ _
  | cons c cs ih =>
      cases ds with
      | nil => exact absurd hlist (List.not_lt_nil _)
      | cons d ds =>
          rw [List.flatMap_cons, List.flatMap_cons]
          rcases List.cons_lt_cons_iff.mp hlist with hfirst | ⟨rfl, hrest⟩
          · exact utf8EncodeChar_append_lt hfirst _ _
          · exact List.append_left_lt (ih ds hrest)

end Entitlement.Text
