import Entitlement.Json.Scan
import Entitlement.Json.Text
import Entitlement.Proofs.Text.Digits

/-! # Written strings and numbers are scanned back

The scanners take exactly what the writers have written and leave what follows. For strings this
holds whatever follows the closing quote; for numbers what follows must not continue the number.
-/

namespace Entitlement.Json

open Text

/-! ## Strings -/

/-- A byte that stands for itself inside a string. -/
def IsPlain (b : UInt8) : Prop := b ≠ byte '"' ∧ b ≠ byte '\\' ∧ ¬ b < 0x20

theorem readChars_plain (seen : List UInt8) {plain : List UInt8} (hplain : ∀ b ∈ plain, IsPlain b)
    (rest : List UInt8) :
    readChars seen (plain ++ rest) = readChars (plain.reverse ++ seen) rest := by
  induction plain generalizing seen with
  | nil => rfl
  | cons b plain ih =>
      obtain ⟨hquote, hbackslash, hcontrol⟩ := hplain b List.mem_cons_self
      rw [List.cons_append, readChars, if_neg hquote, if_neg hbackslash, if_neg hcontrol,
        ih _ fun other hother => hplain other (List.mem_cons_of_mem _ hother)]
      simp

theorem readChars_escaped (seen : List UInt8) {s after : List UInt8} {c : Char}
    (hescape : readEscape s = .ok (c, after)) :
    readChars seen (byte '\\' :: s) =
      readChars ((String.utf8EncodeChar c).reverse ++ seen) after := by
  rw [readChars, if_neg (by decide), if_pos rfl]
  split
  next e herror =>
    rw [hescape] at herror
    simp at herror
  next c' after' hok =>
    rw [hescape, Except.ok.injEq, Prod.mk.injEq] at hok
    rw [hok.1, hok.2]

/-- A character that is written as itself has only bytes that stand for themselves. -/
theorem isPlain_of_mem_utf8EncodeChar {c : Char} (hquote : c ≠ '"') (hbackslash : c ≠ '\\')
    (hcontrol : ¬ c.toNat < 0x20) {b : UInt8} (hb : b ∈ String.utf8EncodeChar c) : IsPlain b := by
  -- An ASCII character is its own byte; the bytes of any other lie above the range.
  by_cases hc : IsAscii c
  · rw [utf8EncodeChar_of_isAscii hc, List.mem_singleton] at hb
    subst hb
    have hne : ∀ d : Char, IsAscii d → c ≠ d → c.toUInt8 ≠ d.toUInt8 := by
      intro d hd hcd heq
      apply hcd
      rw [← ofNat_toUInt8 hc, heq, ofNat_toUInt8 hd]
    refine ⟨hne _ (by decide) hquote, hne _ (by decide) hbackslash, ?_⟩
    rw [UInt8.lt_iff_toNat_lt, toNat_toUInt8 hc]
    exact hcontrol
  · have hle := le_toNat_of_mem_utf8EncodeChar hc hb
    refine ⟨?_, ?_, ?_⟩
    · rintro rfl
      exact absurd hle (by decide)
    · rintro rfl
      exact absurd hle (by decide)
    · rw [UInt8.lt_iff_toNat_lt]
      exact Nat.not_lt.mpr (Nat.le_trans (by decide) hle)

theorem hexValue?_hexDigit : ∀ value < 16, hexValue? (hexDigit value).toUInt8 = some value := by
  decide

theorem isAscii_hexDigit : ∀ value < 16, IsAscii (hexDigit value) := by
  decide

/-- The escape of a control character by its code point is read as the character. -/
theorem readEscape_unit {c : Char} (hcontrol : c.toNat < 0x20) (rest : List UInt8) :
    readEscape (byte 'u' :: byte '0' :: byte '0' :: (hexDigit (c.toNat / 16)).toUInt8 ::
      (hexDigit (c.toNat % 16)).toUInt8 :: rest) = .ok (c, rest) := by
  have hshort : shortEscape? (byte 'u') = none := by decide
  have hzero : hexValue? (byte '0') = some 0 := by decide
  have hhigh := hexValue?_hexDigit (c.toNat / 16) (by omega)
  have hlow := hexValue?_hexDigit (c.toNat % 16) (by omega)
  have hunit : ((0 * 16 + 0) * 16 + c.toNat / 16) * 16 + c.toNat % 16 = c.toNat := by omega
  simp only [readEscape, hshort, if_true, readUnicode, readUnit, hzero, hhigh, hlow, hunit]
  rw [if_neg (by omega), if_neg (by omega), Char.ofNat_toNat]

/-- A character is written with a letter after a backslash, with its code point, or as itself. -/
theorem escape_cases (c : Char) :
    (∃ letter, IsAscii letter ∧ escape c = ['\\', letter] ∧
      shortEscape? letter.toUInt8 = some c) ∨
    (c.toNat < 0x20 ∧ escape c =
      ['\\', 'u', '0', '0', hexDigit (c.toNat / 16), hexDigit (c.toNat % 16)]) ∨
    (c ≠ '"' ∧ c ≠ '\\' ∧ ¬ c.toNat < 0x20 ∧ escape c = [c]) := by
  unfold escape
  split
  next h => exact .inl ⟨'"', by decide, rfl, by rw [h]; decide⟩
  next hquote =>
    split
    next h => exact .inl ⟨'\\', by decide, rfl, by rw [h]; decide⟩
    next hbackslash =>
      split
      next h => exact .inl ⟨'b', by decide, rfl, by rw [h]; decide⟩
      split
      next h => exact .inl ⟨'t', by decide, rfl, by rw [h]; decide⟩
      split
      next h => exact .inl ⟨'n', by decide, rfl, by rw [h]; decide⟩
      split
      next h => exact .inl ⟨'f', by decide, rfl, by rw [h]; decide⟩
      split
      next h => exact .inl ⟨'r', by decide, rfl, by rw [h]; decide⟩
      split
      next hcontrol => exact .inr (.inl ⟨hcontrol, rfl⟩)
      next hcontrol => exact .inr (.inr ⟨hquote, hbackslash, hcontrol, rfl⟩)

/-- A character is read back from its written form. -/
theorem readChars_escape (seen : List UInt8) (c : Char) (rest : List UInt8) :
    readChars seen ((escape c).flatMap String.utf8EncodeChar ++ rest) =
      readChars ((String.utf8EncodeChar c).reverse ++ seen) rest := by
  rcases escape_cases c with ⟨letter, hletter, hescape, hvalue⟩ | ⟨hcontrol, hescape⟩ |
    ⟨hquote, hbackslash, hcontrol, hescape⟩
  · have hread : readEscape (letter.toUInt8 :: rest) = .ok (c, rest) := by
      simp only [readEscape, hvalue]
    rw [hescape, List.flatMap_cons, List.flatMap_singleton, utf8EncodeChar_of_isAscii hletter,
      utf8EncodeChar_of_isAscii (by decide)]
    exact readChars_escaped seen hread
  · have hhigh := isAscii_hexDigit (c.toNat / 16) (by omega)
    have hlow := isAscii_hexDigit (c.toNat % 16) (by omega)
    simp only [hescape, List.flatMap_cons, List.flatMap_nil, utf8EncodeChar_of_isAscii hhigh,
      utf8EncodeChar_of_isAscii hlow, utf8EncodeChar_of_isAscii (show IsAscii '\\' by decide),
      utf8EncodeChar_of_isAscii (show IsAscii 'u' by decide),
      utf8EncodeChar_of_isAscii (show IsAscii '0' by decide), List.cons_append, List.nil_append]
    exact readChars_escaped seen (readEscape_unit hcontrol rest)
  · rw [hescape, List.flatMap_singleton]
    exact readChars_plain seen
      (fun b hb => isPlain_of_mem_utf8EncodeChar hquote hbackslash hcontrol hb) rest

theorem readChars_escapes (seen : List UInt8) (cs : List Char) (rest : List UInt8) :
    readChars seen (bytes (String.ofList (cs.flatMap escape)) ++ byte '"' :: rest) =
      .ok (seen.reverse ++ bytes (String.ofList cs), rest) := by
  rw [bytes_ofList, bytes_ofList]
  induction cs generalizing seen with
  | nil =>
      rw [List.flatMap_nil, List.flatMap_nil, List.append_nil, List.nil_append, readChars,
        if_pos rfl]
  | cons c cs ih =>
      rw [List.flatMap_cons, List.flatMap_append, List.append_assoc, readChars_escape, ih,
        List.reverse_append, List.reverse_reverse, List.flatMap_cons, List.append_assoc]

/-- A string without its opening quote. -/
theorem readString_escapes (s : String) (rest : List UInt8) :
    readString (bytes (String.ofList (s.toList.flatMap escape)) ++ byte '"' :: rest) =
      .ok (s, rest) := by
  have hread := readChars_escapes [] s.toList rest
  rw [String.ofList_toList, List.reverse_nil, List.nil_append] at hread
  simp only [readString, hread, ofBytes?_bytes]

/-- The bytes of a written string. -/
theorem bytes_string (s : String) :
    bytes (string s) =
      byte '"' :: (bytes (String.ofList (s.toList.flatMap escape)) ++ [byte '"']) := by
  have hquote : bytes "\"" = [byte '"'] := rfl
  rw [string, bytes_append, bytes_append, hquote]
  rfl

/-! ## Numbers -/

/-- A text that does not continue the value before it. -/
def EndsValue (rest : List UInt8) : Prop :=
  ∀ b more, rest = b :: more → b = byte ',' ∨ b = byte ']' ∨ b = byte '\x7d' ∨ isSpace b = true

theorem endsValue_nil : EndsValue [] := by
  intro b more h
  simp at h

theorem endsValue_cons {b : UInt8} {more : List UInt8}
    (hb : b = byte ',' ∨ b = byte ']' ∨ b = byte '\x7d') : EndsValue (b :: more) := by
  intro b' more' h
  obtain ⟨rfl, -⟩ := List.cons.inj h
  rcases hb with hb | hb | hb
  · exact .inl hb
  · exact .inr (.inl hb)
  · exact .inr (.inr (.inl hb))

/-- A byte after a value continues no number. -/
theorem EndsValue.head {b : UInt8} {more : List UInt8} (hrest : EndsValue (b :: more)) :
    isDigit b = false ∧ b ≠ byte '.' ∧ b ≠ byte 'e' ∧ b ≠ byte 'E' := by
  rcases hrest b more rfl with rfl | rfl | rfl | hspace
  · decide
  · decide
  · decide
  · simp only [isSpace, Bool.or_eq_true, beq_iff_eq] at hspace
    rcases hspace with ((rfl | rfl) | rfl) | rfl <;> decide

theorem isSpace_of_isDigit {b : UInt8} (hb : Text.IsDigit b) : isSpace b = false := by
  by_contra hspace
  simp only [Bool.not_eq_false, isSpace, Bool.or_eq_true, beq_iff_eq] at hspace
  rcases hspace with ((rfl | rfl) | rfl) | rfl <;> revert hb <;> unfold Text.IsDigit <;> decide

theorem span_digits {digits rest : List UInt8} (hdigits : ∀ b ∈ digits, Text.IsDigit b)
    (hrest : EndsValue rest) :
    (digits ++ rest).takeWhile isDigit = digits ∧ (digits ++ rest).dropWhile isDigit = rest := by
  apply span_append fun b hb => isDigit_iff.mpr (hdigits b hb)
  rintro b more rfl
  exact hrest.head.1

/-- Digits of a number that fits are all kept. -/
theorem foldl_addWhole {digits : List UInt8} {value : Nat}
    (hfits : digitValue value digits < wordBound) :
    digits.foldl Digits.addWhole ⟨value, 0, false⟩ = ⟨digitValue value digits, 0, false⟩ := by
  induction digits generalizing value with
  | nil => rfl
  | cons b digits ih =>
      rw [digitValue_cons] at hfits
      have hle := le_digitValue (value * 10 + (b.toNat - 48)) digits
      have hstep : Digits.addWhole ⟨value, 0, false⟩ b =
          ⟨value * 10 + (b.toNat - 48), 0, false⟩ := by
        have hkept : ¬ wordBound ≤ value * 10 + (b.toNat - 48) := by omega
        simp only [Digits.addWhole, Bool.false_eq_true, false_or, if_neg hkept]
      rw [List.foldl_cons, hstep, ih hfits, digitValue_cons]

theorem digitValue_lt {digits : List UInt8} (hdigits : ∀ b ∈ digits, Text.IsDigit b) :
    digitValue 0 digits < 10 ^ digits.length := by
  induction digits with
  | nil => simp
  | cons b digits ih =>
      have hrest := ih fun other hother => hdigits other (List.mem_cons_of_mem _ hother)
      have hb := (hdigits b List.mem_cons_self).2
      have hle : (b.toNat - 48) * 10 ^ digits.length ≤ 9 * 10 ^ digits.length :=
        Nat.mul_le_mul_right _ (by omega)
      rw [digitValue_cons, digitValue_eq, List.length_cons, Nat.pow_succ, Nat.zero_mul,
        Nat.zero_add]
      omega

/-- Runs of digits of one length that have the same value are equal. -/
theorem digits_unique {ds es : List UInt8} (hds : ∀ d ∈ ds, Text.IsDigit d)
    (hes : ∀ e ∈ es, Text.IsDigit e) (hlength : ds.length = es.length)
    (hvalue : digitValue 0 ds = digitValue 0 es) : ds = es := by
  induction ds generalizing es with
  | nil => exact (List.length_eq_zero_iff.mp hlength.symm).symm
  | cons d ds ih =>
      cases es with
      | nil => cases hlength
      | cons e es =>
          obtain ⟨hd, hds⟩ := List.forall_mem_cons.mp hds
          obtain ⟨he, hes⟩ := List.forall_mem_cons.mp hes
          have hsame : ds.length = es.length := Nat.succ.inj hlength
          have hlt := digitValue_lt hds
          have hlt' := digitValue_lt hes
          rw [digitValue_cons, digitValue_cons, Nat.zero_mul, Nat.zero_add, Nat.zero_add,
            digitValue_eq _ ds, digitValue_eq _ es] at hvalue
          rw [hsame] at hvalue hlt
          -- The first digit weighs more than all others together, so it is the same in both runs.
          have hfirst : d.toNat = e.toNat := by
            rcases Nat.lt_trichotomy (d.toNat - 48) (e.toNat - 48) with hless | heq | hmore
            · have hstep := Nat.mul_le_mul_right (10 ^ es.length) (Nat.succ_le_of_lt hless)
              rw [Nat.succ_mul] at hstep
              omega
            · have hd48 := hd.1
              have he48 := he.1
              omega
            · have hstep := Nat.mul_le_mul_right (10 ^ es.length) (Nat.succ_le_of_lt hmore)
              rw [Nat.succ_mul] at hstep
              omega
          rw [hfirst] at hvalue
          rw [UInt8.toNat_inj.mp hfirst, ih hds hes hsame (Nat.add_left_cancel hvalue)]

theorem pow_le_digitValue {d : UInt8} (hd : Text.IsDigit d) (hnonzero : d ≠ byte '0')
    (ds : List UInt8) : 10 ^ ds.length ≤ digitValue 0 (d :: ds) := by
  have hzero : (byte '0').toNat = 48 := rfl
  have hne : d.toNat ≠ (byte '0').toNat := fun heq => hnonzero (UInt8.toNat_inj.mp heq)
  have hpos : 1 ≤ d.toNat - 48 := by
    have hle := hd.1
    omega
  have hstep := Nat.mul_le_mul_right (10 ^ ds.length) hpos
  rw [digitValue_cons, Nat.zero_mul, Nat.zero_add, digitValue_eq]
  omega

theorem bytes_nat (n : Nat) : bytes (nat n) = (Nat.toDigits 10 n).map Char.toUInt8 := by
  rw [nat, Nat.toString_eq_ofList_toDigits]
  exact bytes_ofList_of_isAscii fun _ hc => isAscii_of_isDigit (isDigit_of_mem_digits hc)

/-- A written number has no zero in front of other digits. -/
theorem nat_no_leading_zero {n : Nat} {more : List UInt8}
    (hdigits : bytes (nat n) = byte '0' :: more) : more = [] := by
  obtain ⟨hall, hvalue⟩ := denotes_toString n
  change bytes (toString n) = byte '0' :: more at hdigits
  rw [hdigits] at hall hvalue
  -- Otherwise the digits behind the zero would have the value of all of them,
  -- and the number would have been written with one digit less.
  by_contra hne
  have hpos := List.length_pos_iff.mpr hne
  have hlt := digitValue_lt fun b hb => hall b (List.mem_cons_of_mem _ hb)
  have hsame : digitValue 0 (byte '0' :: more) = digitValue 0 more := rfl
  rw [← hsame, hvalue] at hlt
  have hlength := (Nat.length_toDigits_le_iff (b := 10) (by decide) hpos).mpr hlt
  have htotal := congrArg List.length ((bytes_nat n).symm.trans hdigits)
  rw [List.length_map, List.length_cons] at htotal
  omega

theorem readNumber_nat {n : Nat} (hn : n < wordBound) {rest : List UInt8}
    (hrest : EndsValue rest) :
    readNumber false (bytes (nat n) ++ rest) = .ok (.natural n, rest) := by
  obtain ⟨hall, hvalue⟩ := denotes_toString n
  obtain ⟨htake, hdrop⟩ := span_digits hall hrest
  change (bytes (nat n) ++ rest).takeWhile isDigit = bytes (nat n) at htake
  change (bytes (nat n) ++ rest).dropWhile isDigit = rest at hdrop
  change digitValue 0 (bytes (nat n)) = n at hvalue
  unfold readNumber
  simp only [htake, hdrop]
  cases hdigits : bytes (nat n) with
  | nil =>
      rw [bytes_nat, List.map_eq_nil_iff] at hdigits
      exact absurd hdigits Nat.toDigits_ne_nil
  | cons first more =>
      -- A zero in front is the whole number, so the scanner finds no fault with it.
      have hzero : ¬ (first = byte '0' ∧ more ≠ []) := by
        rintro ⟨rfl, hne⟩
        exact hne (nat_no_leading_zero hdigits)
      rw [hdigits] at hvalue
      simp only [if_neg hzero, foldl_addWhole (hvalue ▸ hn), hvalue]
      cases rest with
      | nil => simp [readAfterWhole, Digits.toNumber, Except.map]
      | cons b after =>
          obtain ⟨-, hpoint, hlower, hupper⟩ := hrest.head
          simp [readAfterWhole, Digits.toNumber, Except.map, hpoint, hlower, hupper]

end Entitlement.Json
