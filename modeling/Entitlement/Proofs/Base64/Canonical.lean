import Entitlement.Proofs.Base64
import Entitlement.Proofs.Steps

/-! # Base64 is read in one spelling

A text is read as a byte string exactly if it is the written form of that byte string. Missing or
needless padding, bits that belong to no byte, blanks and foreign characters are refused at every
length, so no two texts denote the same bytes.
-/

namespace Entitlement.Base64

open Text

/-- A lawful alphabet in which only its symbols have a value. -/
structure Alphabet.IsStrict (alphabet : Alphabet) : Prop extends alphabet.IsLawful where
  symbol_of_value? : ∀ code < 256, ∀ value ∈ alphabet.value? (UInt8.ofNat code),
    value < 64 ∧ (alphabet.symbol value).toUInt8 = UInt8.ofNat code

theorem Alphabet.standard_isStrict : Alphabet.standard.IsStrict :=
  ⟨Alphabet.standard_isLawful, by decide +kernel⟩

namespace Alphabet

variable {alphabet : Alphabet}

theorem IsStrict.eq_symbol (hstrict : alphabet.IsStrict) {byte : UInt8} {value : Nat}
    (hvalue : alphabet.value? byte = some value) :
    value < 64 ∧ byte = (alphabet.symbol value).toUInt8 := by
  have hsymbol := hstrict.symbol_of_value? byte.toNat byte.toNat_lt value
  rw [UInt8.ofNat_toNat] at hsymbol
  obtain ⟨hlt, heq⟩ := hsymbol hvalue
  exact ⟨hlt, heq.symm⟩

theorem valueAt_eq_ok_iff {offset : Nat} {byte : UInt8} {value : Nat} :
    alphabet.valueAt offset byte = .ok value ↔ alphabet.value? byte = some value := by
  unfold valueAt
  cases alphabet.value? byte <;> simp

/-! ## Groups and their symbols -/

theorem first_toNat {a b : Nat} (ha : a < 64) (hb : b < 64) :
    (UInt8.ofNat (a * 4 + b / 16)).toNat = a * 4 + b / 16 := by
  rw [UInt8.toNat_ofNat']
  omega

theorem second_toNat {b c : Nat} (hc : c < 64) :
    (UInt8.ofNat (b % 16 * 16 + c / 4)).toNat = b % 16 * 16 + c / 4 := by
  rw [UInt8.toNat_ofNat']
  omega

theorem third_toNat {c d : Nat} (hd : d < 64) :
    (UInt8.ofNat (c % 4 * 64 + d)).toNat = c % 4 * 64 + d := by
  rw [UInt8.toNat_ofNat']
  omega

theorem first_symbol {a b : Nat} (hb : b < 64) : (a * 4 + b / 16) / 4 = a := by
  omega

theorem second_symbol {a b c : Nat} (hb : b < 64) (hc : c < 64) :
    (a * 4 + b / 16) % 4 * 16 + (b % 16 * 16 + c / 4) / 16 = b := by
  omega

/-- Four symbols are the written form of the three bytes they hold. -/
theorem encodeChars_groupBytes {a b c d : Nat} (ha : a < 64) (hb : b < 64) (hc : c < 64)
    (hd : d < 64) (rest : List UInt8) :
    alphabet.encodeChars (groupBytes a b c d ++ rest) =
      [a, b, c, d].map alphabet.symbol ++ alphabet.encodeChars rest := by
  have hthird : (b % 16 * 16 + c / 4) % 16 * 4 + (c % 4 * 64 + d) / 64 = c := by omega
  have hfourth : (c % 4 * 64 + d) % 64 = d := by omega
  simp only [groupBytes, List.cons_append, List.nil_append, encodeChars, first_toNat ha hb,
    second_toNat hc, third_toNat hd, first_symbol hb, second_symbol hb hc, hthird, hfourth,
    List.map_cons, List.map_nil]

/-- The values of a last group hold some bytes and no bit besides. -/
inductive Holds : List Nat → List UInt8 → Prop where
  | one {a b : Nat} (hspare : b % 16 = 0) : Holds [a, b] ((groupBytes a b 0 0).take 1)
  | two {a b c : Nat} (hspare : c % 4 = 0) : Holds [a, b, c] ((groupBytes a b c 0).take 2)
  | three {a b c d : Nat} : Holds [a, b, c, d] (groupBytes a b c d)

/-- The symbols of a last group, with their padding, are the written form of what they hold. -/
theorem Holds.encodeChars {values : List Nat} {bytes : List UInt8} (hholds : Holds values bytes)
    (hvalues : ∀ value ∈ values, value < 64) :
    alphabet.encodeChars bytes = values.map alphabet.symbol ++ alphabet.padding values.length := by
  cases hholds with
  | @one a b hspare =>
      obtain ⟨ha, hb⟩ : a < 64 ∧ b < 64 := by simpa using hvalues
      have hsecond : (a * 4 + b / 16) % 4 * 16 = b := by omega
      simp only [groupBytes, List.take, Alphabet.encodeChars, first_toNat ha hb, first_symbol hb,
        hsecond, List.map_cons, List.map_nil, List.length_cons, List.length_nil]
  | @two a b c hspare =>
      obtain ⟨ha, hb, hc⟩ : a < 64 ∧ b < 64 ∧ c < 64 := by simpa using hvalues
      have hthird : (b % 16 * 16 + c / 4) % 16 * 4 = c := by omega
      simp only [groupBytes, List.take, Alphabet.encodeChars, first_toNat ha hb, second_toNat hc,
        first_symbol hb, second_symbol hb hc, hthird, List.map_cons, List.map_nil,
        List.length_cons, List.length_nil]
  | @three a b c d =>
      obtain ⟨ha, hb, hc, hd⟩ : a < 64 ∧ b < 64 ∧ c < 64 ∧ d < 64 := by simpa using hvalues
      have hgroup : alphabet.encodeChars (groupBytes a b c d ++ []) = _ :=
        encodeChars_groupBytes ha hb hc hd []
      have hpadding : alphabet.padding 4 = [] := by simp [padding]
      rw [List.append_nil] at hgroup
      rw [hgroup]
      exact congrArg _ hpadding.symm

/-! ## The last group -/

/-- What is read of a last group is symbols, and after them padding. -/
theorem IsStrict.readTail_eq_ok (hstrict : alphabet.IsStrict) {start : Nat} {tail result : Tail}
    {last : List UInt8} (hread : alphabet.readTail start tail last = .ok result) :
    ∃ (values : List Nat) (count : Nat),
      (∀ value ∈ values, value < 64) ∧ (tail.pads ≠ 0 → values = []) ∧
        last = (values.map alphabet.symbol ++ List.replicate count pad).map Char.toUInt8 ∧
        result = ⟨(values.map alphabet.entry).reverse ++ tail.symbols, tail.pads + count⟩ := by
  induction last generalizing tail with
  | nil =>
      rw [readTail, Except.ok.injEq] at hread
      exact ⟨[], 0, by simp, fun _ => rfl, rfl, hread.symm⟩
  | cons byte rest ih =>
      rw [readTail] at hread
      split at hread
      next hpad =>
        split at hread
        next => cases hread
        next =>
          obtain ⟨values, count, -, hnone, hrest, hresult⟩ := ih hread
          -- Padding has been read, so nothing but padding follows.
          obtain rfl := hnone (Nat.succ_ne_zero _)
          refine ⟨[], count + 1, by simp, fun _ => rfl, ?_, ?_⟩
          · rw [hpad, hrest]
            rfl
          · rw [hresult, Nat.add_assoc, Nat.add_comm 1]
      next hpad =>
        split at hread
        next => cases hread
        next hfirst =>
          cases hvalue : alphabet.valueAt (start + tail.symbols.length + tail.pads) byte with
          | error e => simp [hvalue] at hread
          | ok value =>
              simp only [hvalue] at hread
              obtain ⟨hlt, hsymbol⟩ := hstrict.eq_symbol (valueAt_eq_ok_iff.mp hvalue)
              obtain ⟨values, count, hvalues, -, hrest, hresult⟩ := ih hread
              refine ⟨value :: values, count, ?_, fun hpads => absurd hpads hfirst, ?_, ?_⟩
              · simpa [hlt] using hvalues
              · rw [hsymbol, hrest]
                rfl
              · rw [hresult]
                simp [entry, hsymbol]

/-- Padding that is neither missing nor needless is the padding of the written form. -/
theorem replicate_pad_eq_padding {symbols count : Nat}
    (hmissing : ¬ (alphabet.isPadded ∧ (symbols + count) % 4 ≠ 0))
    (hneedless : ¬ (¬ alphabet.isPadded ∧ count ≠ 0)) (hmin : ¬ symbols < 2)
    (hgroup : symbols + count ≤ 4) : List.replicate count pad = alphabet.padding symbols := by
  unfold padding
  cases hpadded : alphabet.isPadded with
  | true =>
      have hfull : (symbols + count) % 4 = 0 := by simpa [hpadded] using hmissing
      have hcount : count = 4 - symbols := by omega
      rw [hcount, if_pos rfl]
  | false =>
      have hcount : count = 0 := by simpa [hpadded] using hneedless
      rw [hcount, if_neg Bool.false_ne_true, List.replicate_zero]

/-- The bytes of a last group are what its symbols hold, and its padding is that of the written
form. -/
theorem holds_of_finishTail {start : Nat} {tail : Tail} {bytes : List UInt8}
    (hbytes : alphabet.finishTail start tail = .ok bytes)
    (hgroup : tail.symbols.length + tail.pads ≤ 4) :
    Holds (tail.symbols.map Prod.snd).reverse bytes ∧
      List.replicate tail.pads pad = alphabet.padding tail.symbols.length := by
  revert hbytes
  fun_cases finishTail alphabet start tail with
  | case1 | case2 | case3 | case5 | case7 | case9 => nofun
  | case4 _ hmin hmissing hneedless _ d _ c _ b _ a hsymbols =>
      rintro ⟨⟩
      exact ⟨hsymbols ▸ .three, replicate_pad_eq_padding hmissing hneedless hmin hgroup⟩
  | case6 _ hmin hmissing hneedless last c _ b _ a hsymbols hspare =>
      rintro ⟨⟩
      exact ⟨hsymbols ▸ .two (Decidable.not_not.mp hspare),
        replicate_pad_eq_padding hmissing hneedless hmin hgroup⟩
  | case8 _ hmin hmissing hneedless last b _ a hsymbols hspare =>
      rintro ⟨⟩
      exact ⟨hsymbols ▸ .one (Decidable.not_not.mp hspare),
        replicate_pad_eq_padding hmissing hneedless hmin hgroup⟩

/-- A last group is the written form of the bytes that are read from it. -/
theorem IsStrict.encodeChars_of_finishTail (hstrict : alphabet.IsStrict) {start : Nat}
    {tail : Tail} {last bytes : List UInt8} (hlast : last.length ≤ 4)
    (htail : alphabet.readTail start ⟨[], 0⟩ last = .ok tail)
    (hbytes : alphabet.finishTail start tail = .ok bytes) : last = alphabet.written bytes := by
  obtain ⟨values, count, hvalues, -, rfl, rfl⟩ := hstrict.readTail_eq_ok htail
  obtain ⟨hholds, hpadding⟩ := holds_of_finishTail hbytes (by simpa using hlast)
  have hread : (((values.map alphabet.entry).reverse ++ []).map Prod.snd).reverse = values := by
    simp [entry, Function.comp_def]
  have hlength : ((values.map alphabet.entry).reverse ++ []).length = values.length := by simp
  rw [hread] at hholds
  rw [hlength, Nat.zero_add] at hpadding
  rw [written, hholds.encodeChars hvalues, hpadding]

/-! ## Whole texts -/

/-- What is read is the bytes whose written form stands there, after those read before. -/
theorem IsStrict.readGroups_eq_ok (hstrict : alphabet.IsStrict) {start : Nat}
    {read input out : List UInt8} (hread : alphabet.readGroups start read input = .ok out) :
    ∃ bytes, out = read.reverse ++ bytes ∧ input = alphabet.written bytes := by
  fun_induction readGroups alphabet start read input generalizing out with
  | case1 start read a b c d next rest ih =>
      simp only [bind_eq_ok_iff, valueAt_eq_ok_iff] at hread
      obtain ⟨va, ha, vb, hb, vc, hc, vd, hd, hrest⟩ := hread
      obtain ⟨bytes, hout, hwritten⟩ := ih va vb vc vd hrest
      obtain ⟨hva, rfl⟩ := hstrict.eq_symbol ha
      obtain ⟨hvb, rfl⟩ := hstrict.eq_symbol hb
      obtain ⟨hvc, rfl⟩ := hstrict.eq_symbol hc
      obtain ⟨hvd, rfl⟩ := hstrict.eq_symbol hd
      refine ⟨groupBytes va vb vc vd ++ bytes, ?_, ?_⟩
      · rw [hout, List.reverse_append, List.reverse_reverse, List.append_assoc]
      · rw [written, encodeChars_groupBytes hva hvb hvc hvd, List.map_append, ← written,
          ← hwritten]
        rfl
  | case2 start read last hshort =>
      have hlast : last.length ≤ 4 := by
        rcases last with _ | ⟨a, _ | ⟨b, _ | ⟨c, _ | ⟨d, _ | ⟨next, rest⟩⟩⟩⟩⟩
        case cons.cons.cons.cons.cons => exact (hshort a b c d next rest rfl).elim
        all_goals simp
      obtain ⟨tail, htail, hread⟩ := bind_eq_ok_iff.mp hread
      obtain ⟨bytes, hbytes, hread⟩ := bind_eq_ok_iff.mp hread
      obtain rfl := Except.ok.inj hread
      exact ⟨bytes, rfl, hstrict.encodeChars_of_finishTail hlast htail hbytes⟩

theorem IsStrict.decodeBytes_eq_ok_iff (hstrict : alphabet.IsStrict) {input bytes : List UInt8} :
    alphabet.decodeBytes input = .ok bytes ↔ input = alphabet.written bytes := by
  refine ⟨fun hread => ?_, fun hinput => hinput ▸ hstrict.decodeBytes_written bytes⟩
  unfold decodeBytes at hread
  split at hread
  next =>
    cases hread
    rfl
  next =>
    split at hread
    next => cases hread
    next =>
      obtain ⟨_, rfl, hinput⟩ := hstrict.readGroups_eq_ok hread
      exact hinput

/-- A text is read as some bytes exactly if it is their written form. -/
theorem IsStrict.decode_eq_ok_iff (hstrict : alphabet.IsStrict) {text : String}
    {bytes : List UInt8} : alphabet.decode text = .ok bytes ↔ text = alphabet.encode bytes := by
  rw [decode, hstrict.decodeBytes_eq_ok_iff, ← hstrict.bytes_encode, bytes_inj]

/-- A text is refused exactly if it is the written form of no bytes. -/
theorem IsStrict.exists_decode_eq_error_iff (hstrict : alphabet.IsStrict) {text : String} :
    (∃ cause, alphabet.decode text = .error cause) ↔ ∀ bytes, text ≠ alphabet.encode bytes := by
  cases hread : alphabet.decode text with
  | error cause =>
      refine ⟨fun _ bytes htext => ?_, fun _ => ⟨cause, rfl⟩⟩
      rw [hstrict.decode_eq_ok_iff.mpr htext] at hread
      cases hread
  | ok bytes =>
      refine ⟨nofun, fun hnone => ?_⟩
      exact absurd (hstrict.decode_eq_ok_iff.mp hread) (hnone bytes)

end Alphabet

end Entitlement.Base64
