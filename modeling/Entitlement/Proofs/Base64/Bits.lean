import Mathlib.Algebra.Group.Nat.Defs
import Entitlement.Proofs.Base64
import Entitlement.Signature.Edwards

/-! # The bits of a written form

Padded base64 without the grouping of bytes by three: the bits of all bytes stand one after another,
six to a symbol, the last symbol is filled with zeros, and padding fills the last four characters.
No other text carries the same bytes, so this describes the written form and nothing else.
-/

namespace Entitlement.Base64

open Signature.Edwards (bits)

/-! ## Bits of numbers -/

@[simp] theorem length_bits (count n : Nat) : (bits count n).length = count := by
  simp [bits]

theorem bits_append (high low x : Nat) {y : Nat} (hy : y < 2 ^ low) :
    bits (high + low) (2 ^ low * x + y) = bits high x ++ bits low y := by
  rw [bits, Nat.add_comm high low, List.range_add, List.reverse_append, List.map_append,
    ← List.map_reverse, List.map_map]
  congr 1
  · refine List.map_congr_left fun i _ => ?_
    rw [Function.comp_apply, Nat.testBit_two_pow_mul_add x hy, if_neg (by omega),
      Nat.add_sub_cancel_left]
  · refine List.map_congr_left fun i hi => ?_
    have hlt : i < low := List.mem_range.mp (List.mem_reverse.mp hi)
    rw [Nat.testBit_two_pow_mul_add x hy, if_pos hlt]

/-- A number is its higher bits before its lower ones. -/
theorem bits_split (high low n : Nat) :
    bits (high + low) n = bits high (n / 2 ^ low) ++ bits low (n % 2 ^ low) := by
  rw [← bits_append high low _ (Nat.mod_lt n (Nat.two_pow_pos low)), Nat.div_add_mod]

theorem bits_zero (count : Nat) : bits count 0 = List.replicate count false := by
  refine List.eq_replicate_iff.mpr ⟨length_bits count 0, fun bit hbit => ?_⟩
  obtain ⟨i, -, rfl⟩ := List.mem_map.mp hbit
  exact Nat.zero_testBit i

theorem eq_of_bits_eq {count v w : Nat} (hv : v < 2 ^ count) (hw : w < 2 ^ count)
    (hbits : bits count v = bits count w) : v = w := by
  refine Nat.eq_of_testBit_eq fun i => ?_
  by_cases hi : i < count
  · exact List.map_inj_left.mp hbits i (List.mem_reverse.mpr (List.mem_range.mpr hi))
  · have hle : 2 ^ count ≤ 2 ^ i := Nat.pow_le_pow_right (by decide) (by omega)
    rw [Nat.testBit_lt_two_pow (Nat.lt_of_lt_of_le hv hle),
      Nat.testBit_lt_two_pow (Nat.lt_of_lt_of_le hw hle)]

/-! ## The format -/

/-- The symbols of the standard alphabet in the order of their values. -/
def standardSymbols : List Char :=
  "ABCDEFGHIJKLMNOPQRSTUVWXYZabcdefghijklmnopqrstuvwxyz0123456789+/".toList

/-- The bits of some bytes. -/
def byteBits (bytes : List UInt8) : List Bool :=
  bytes.flatMap fun byte => bits 8 byte.toNat

/-- The bits that some symbols carry. -/
def symbolBits (symbols : List Char) : List Bool :=
  symbols.flatMap fun c => bits 6 (standardSymbols.idxOf c)

/-- A text is padded base64 of some bytes: symbols that carry the bits of the bytes, with zeros to
fill the last symbol, and then padding to fill the last four characters. -/
def IsPaddedForm (text : String) (bytes : List UInt8) : Prop :=
  ∃ symbols spare pads, text.toList = symbols ++ List.replicate pads '=' ∧
    (∀ c ∈ symbols, c ∈ standardSymbols) ∧
    symbolBits symbols = byteBits bytes ++ List.replicate spare false ∧ spare < 6 ∧
    4 ∣ symbols.length + pads ∧ pads < 4

theorem symbol_mem_standardSymbols :
    ∀ value < 64, Alphabet.standard.symbol value ∈ standardSymbols := by
  decide

theorem idxOf_symbol :
    ∀ value < 64, standardSymbols.idxOf (Alphabet.standard.symbol value) = value := by
  decide

theorem idxOf_lt {c : Char} (hc : c ∈ standardSymbols) : standardSymbols.idxOf c < 64 :=
  List.idxOf_lt_length_of_mem hc

/-- Values below 64 are symbols that carry their bits. -/
theorem symbolBits_map {values : List Nat} (hvalues : ∀ value ∈ values, value < 64) :
    symbolBits (values.map Alphabet.standard.symbol) = values.flatMap (bits 6) := by
  rw [symbolBits, List.flatMap_map]
  refine List.flatMap_congr fun value hvalue => ?_
  rw [idxOf_symbol value (hvalues value hvalue)]

/-! ## Groups -/

theorem bits_second {x y : Nat} (hy : y < 16) : bits 6 (x * 16 + y) = bits 2 x ++ bits 4 y := by
  rw [Nat.mul_comm]
  exact bits_append 2 4 x hy

theorem bits_third {x y : Nat} (hy : y < 4) : bits 6 (x * 4 + y) = bits 4 x ++ bits 2 y := by
  rw [Nat.mul_comm]
  exact bits_append 4 2 x hy

theorem bits_group {a b c : Nat} (hb : b < 256) (hc : c < 256) :
    [a / 4, a % 4 * 16 + b / 16, b % 16 * 4 + c / 64, c % 64].flatMap (bits 6) =
      bits 8 a ++ bits 8 b ++ bits 8 c := by
  have ha : bits 8 a = bits 6 (a / 4) ++ bits 2 (a % 4) := bits_split 6 2 a
  have hb' : bits 8 b = bits 4 (b / 16) ++ bits 4 (b % 16) := bits_split 4 4 b
  have hc' : bits 8 c = bits 2 (c / 64) ++ bits 6 (c % 64) := bits_split 2 6 c
  rw [ha, hb', hc']
  simp only [List.flatMap_cons, List.flatMap_nil, List.append_nil, List.append_assoc,
    bits_second (show b / 16 < 16 by omega), bits_third (show c / 64 < 4 by omega)]

theorem bits_group_two {a b : Nat} (hb : b < 256) :
    [a / 4, a % 4 * 16 + b / 16, b % 16 * 4].flatMap (bits 6) =
      bits 8 a ++ bits 8 b ++ List.replicate 2 false := by
  have ha : bits 8 a = bits 6 (a / 4) ++ bits 2 (a % 4) := bits_split 6 2 a
  have hb' : bits 8 b = bits 4 (b / 16) ++ bits 4 (b % 16) := bits_split 4 4 b
  have hlast := @bits_third (b % 16) 0 (by decide)
  rw [Nat.add_zero] at hlast
  rw [ha, hb', ← bits_zero]
  simp only [List.flatMap_cons, List.flatMap_nil, List.append_nil, List.append_assoc,
    bits_second (show b / 16 < 16 by omega), hlast]

theorem bits_group_one (a : Nat) :
    [a / 4, a % 4 * 16].flatMap (bits 6) = bits 8 a ++ List.replicate 4 false := by
  have ha : bits 8 a = bits 6 (a / 4) ++ bits 2 (a % 4) := bits_split 6 2 a
  have hlast := @bits_second (a % 4) 0 (by decide)
  rw [Nat.add_zero] at hlast
  rw [ha, ← bits_zero]
  simp only [List.flatMap_cons, List.flatMap_nil, List.append_nil, List.append_assoc, hlast]

/-! ## Written forms -/

theorem symbolBits_append (symbols symbols' : List Char) :
    symbolBits (symbols ++ symbols') = symbolBits symbols ++ symbolBits symbols' :=
  List.flatMap_append

theorem length_symbolBits (symbols : List Char) :
    (symbolBits symbols).length = 6 * symbols.length := by
  induction symbols with
  | nil => rfl
  | cons c symbols ih =>
      rw [← List.singleton_append, symbolBits_append, List.length_append, ih, List.length_append]
      simp [symbolBits]
      omega

/-- Symbols that carry the same bits are the same. -/
theorem eq_of_symbolBits_eq {symbols symbols' : List Char}
    (hsymbols : ∀ c ∈ symbols, c ∈ standardSymbols)
    (hsymbols' : ∀ c ∈ symbols', c ∈ standardSymbols)
    (hbits : symbolBits symbols = symbolBits symbols') : symbols = symbols' := by
  have hlength : symbols.length = symbols'.length := by
    have hcount := congrArg List.length hbits
    rw [length_symbolBits, length_symbolBits] at hcount
    omega
  induction symbols generalizing symbols' with
  | nil => exact (List.length_eq_zero_iff.mp hlength.symm).symm
  | cons c symbols ih =>
      cases symbols' with
      | nil => cases hlength
      | cons c' symbols' =>
          obtain ⟨hc, hmore⟩ := List.forall_mem_cons.mp hsymbols
          obtain ⟨hc', hmore'⟩ := List.forall_mem_cons.mp hsymbols'
          have hparts : bits 6 (standardSymbols.idxOf c) ++ symbolBits symbols =
              bits 6 (standardSymbols.idxOf c') ++ symbolBits symbols' := hbits
          obtain ⟨hfirst, hrest⟩ := List.append_inj hparts (by rw [length_bits, length_bits])
          have hvalue := eq_of_bits_eq (idxOf_lt hc) (idxOf_lt hc') hfirst
          rw [(List.idxOf_inj hc).mp hvalue, ih hmore hmore' hrest (Nat.succ.inj hlength)]

theorem byteBits_cons (byte : UInt8) (bytes : List UInt8) :
    byteBits (byte :: bytes) = bits 8 byte.toNat ++ byteBits bytes :=
  List.flatMap_cons

/-- A written form is symbols whose values hold the bits of the bytes, and then padding. -/
theorem exists_values (bytes : List UInt8) :
    ∃ (values : List Nat) (spare pads : Nat),
      Alphabet.standard.encodeChars bytes =
        values.map Alphabet.standard.symbol ++ List.replicate pads '=' ∧
      (∀ value ∈ values, value < 64) ∧
      values.flatMap (bits 6) = byteBits bytes ++ List.replicate spare false ∧ spare < 6 ∧
      4 ∣ values.length + pads ∧ pads < 4 := by
  fun_induction Alphabet.encodeChars Alphabet.standard bytes with
  | case1 => exact ⟨[], 0, 0, rfl, by simp, rfl, by decide, ⟨0, rfl⟩, by decide⟩
  | case2 a =>
      have ha := a.toNat_lt
      refine ⟨[a.toNat / 4, a.toNat % 4 * 16], 4, 2, rfl, ?_, ?_, by decide, ⟨1, rfl⟩, by decide⟩
      · simp only [List.forall_mem_cons]
        exact ⟨by omega, by omega, by simp⟩
      · rw [bits_group_one, byteBits_cons]
        simp [byteBits]
  | case3 a b =>
      have ha := a.toNat_lt
      have hb := b.toNat_lt
      refine ⟨[a.toNat / 4, a.toNat % 4 * 16 + b.toNat / 16, b.toNat % 16 * 4], 2, 1, rfl, ?_, ?_,
        by decide, ⟨1, rfl⟩, by decide⟩
      · simp only [List.forall_mem_cons]
        exact ⟨by omega, by omega, by omega, by simp⟩
      · rw [bits_group_two hb, byteBits_cons, byteBits_cons]
        simp [byteBits]
  | case4 a b c rest ih =>
      have ha := a.toNat_lt
      have hb := b.toNat_lt
      have hc := c.toNat_lt
      obtain ⟨values, spare, pads, hchars, hvalues, hbits, hspare, hfull, hpads⟩ := ih
      refine ⟨[a.toNat / 4, a.toNat % 4 * 16 + b.toNat / 16, b.toNat % 16 * 4 + c.toNat / 64,
        c.toNat % 64] ++ values, spare, pads, ?_, ?_, ?_, hspare, ?_, hpads⟩
      · rw [hchars]
        rfl
      · simp only [List.forall_mem_append, List.forall_mem_cons]
        exact ⟨⟨by omega, by omega, by omega, by omega, by simp⟩, hvalues⟩
      · rw [List.flatMap_append, bits_group hb hc, hbits]
        simp only [byteBits_cons, List.append_assoc]
      · rw [List.length_append, Nat.add_assoc]
        exact (Nat.dvd_add_right ⟨1, rfl⟩).mpr hfull

/-- The written form of some bytes is padded base64 of them. -/
theorem isPaddedForm_encode (bytes : List UInt8) :
    IsPaddedForm (Alphabet.standard.encode bytes) bytes := by
  obtain ⟨values, spare, pads, hchars, hvalues, hbits, hspare, hfull, hpads⟩ := exists_values bytes
  refine ⟨values.map Alphabet.standard.symbol, spare, pads, ?_, fun c hc => ?_, ?_, hspare, ?_,
    hpads⟩
  · rw [Alphabet.encode, String.toList_ofList, hchars]
  · obtain ⟨value, hvalue, rfl⟩ := List.mem_map.mp hc
    exact symbol_mem_standardSymbols value (hvalues value hvalue)
  · rw [symbolBits_map hvalues, hbits]
  · rwa [List.length_map]

/-- Bytes have one padded form. -/
theorem IsPaddedForm.unique {text text' : String} {bytes : List UInt8}
    (hform : IsPaddedForm text bytes) (hform' : IsPaddedForm text' bytes) : text = text' := by
  obtain ⟨symbols, spare, pads, htext, hsymbols, hbits, hspare, hfull, hpads⟩ := hform
  obtain ⟨symbols', spare', pads', htext', hsymbols', hbits', hspare', hfull', hpads'⟩ := hform'
  have hlength := congrArg List.length hbits
  have hlength' := congrArg List.length hbits'
  rw [length_symbolBits, List.length_append, List.length_replicate] at hlength hlength'
  -- The zeros that fill a symbol are fewer than it has bits, so there is one number of symbols.
  have hsame : spare = spare' := by omega
  have hcount : pads = pads' := by omega
  rw [hsame, ← hbits'] at hbits
  rw [eq_of_symbolBits_eq hsymbols hsymbols' hbits, hcount, ← htext'] at htext
  exact String.toList_injective htext

/-- The padded form of some bytes is their written form. -/
theorem isPaddedForm_iff {text : String} {bytes : List UInt8} :
    IsPaddedForm text bytes ↔ text = Alphabet.standard.encode bytes := by
  refine ⟨fun hform => hform.unique (isPaddedForm_encode bytes), ?_⟩
  rintro rfl
  exact isPaddedForm_encode bytes

end Entitlement.Base64
