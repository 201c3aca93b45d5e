import Entitlement.Base64
import Entitlement.Proofs.Text.Ascii

/-! # Byte strings survive base64

Reading the written form of a byte string gives the byte string back, in both alphabets and for
every length of the last group. The written form holds ASCII symbols and padding only, so it needs
no escaping inside a document and has no blanks at its ends.
-/

namespace Entitlement.Base64

open Text

/-- An alphabet whose symbols can be told from each other, from padding and from blanks. -/
structure Alphabet.IsLawful (alphabet : Alphabet) : Prop where
  isAscii : ∀ value < 64, IsAscii (alphabet.symbol value)
  isNotBlank : ∀ value < 64, isBlank (alphabet.symbol value) = false
  isNotPad : ∀ value < 64, (alphabet.symbol value).toUInt8 ≠ pad.toUInt8
  value?_symbol : ∀ value < 64, alphabet.value? (alphabet.symbol value).toUInt8 = some value

theorem Alphabet.standard_isLawful : Alphabet.standard.IsLawful :=
  ⟨by decide, by decide, by decide, by decide⟩

theorem Alphabet.urlSafe_isLawful : Alphabet.urlSafe.IsLawful :=
  ⟨by decide, by decide, by decide, by decide⟩

/-! ## Groups as numbers -/

theorem ofNat_eq {n : Nat} {b : UInt8} (h : n = b.toNat) : UInt8.ofNat n = b := by
  rw [h, UInt8.ofNat_toNat]

/-- Four values of six bits hold the bits of three bytes. -/
theorem groupBytes_eq (x y z : UInt8) :
    groupBytes (x.toNat / 4) (x.toNat % 4 * 16 + y.toNat / 16) (y.toNat % 16 * 4 + z.toNat / 64)
      (z.toNat % 64) = [x, y, z] := by
  have hx := x.toNat_lt
  have hy := y.toNat_lt
  have hz := z.toNat_lt
  rw [groupBytes, ofNat_eq (b := x) (by omega), ofNat_eq (b := y) (by omega),
    ofNat_eq (b := z) (by omega)]

theorem groupBytes_two (x y : UInt8) :
    (groupBytes (x.toNat / 4) (x.toNat % 4 * 16 + y.toNat / 16) (y.toNat % 16 * 4) 0).take 2 =
      [x, y] := by
  have hgroup := groupBytes_eq x y 0
  simp only [UInt8.toNat_zero, Nat.zero_div, Nat.add_zero, Nat.zero_mod] at hgroup
  rw [hgroup]
  rfl

theorem groupBytes_one (x : UInt8) :
    (groupBytes (x.toNat / 4) (x.toNat % 4 * 16) 0 0).take 1 = [x] := by
  have hgroup := groupBytes_two x 0
  simp only [UInt8.toNat_zero, Nat.zero_div, Nat.add_zero, Nat.zero_mod, Nat.zero_mul] at hgroup
  have htake := congrArg (List.take 1) hgroup
  rwa [List.take_take] at htake

namespace Alphabet

variable {alphabet : Alphabet}

/-- The bytes of the written form of a byte string. -/
def written (alphabet : Alphabet) (bytes : List UInt8) : List UInt8 :=
  (alphabet.encodeChars bytes).map Char.toUInt8

/-! ## Symbols -/

/-- A character of a written form: a symbol or padding. -/
def IsWritten (alphabet : Alphabet) (c : Char) : Prop :=
  c = pad ∨ ∃ value < 64, c = alphabet.symbol value

theorem isWritten_of_mem_padding {symbols : Nat} {c : Char} (hc : c ∈ alphabet.padding symbols) :
    alphabet.IsWritten c := by
  unfold padding at hc
  split at hc
  · exact .inl (List.eq_of_mem_replicate hc)
  · simp at hc

theorem isWritten_of_mem_encodeChars {bytes : List UInt8} {c : Char}
    (hc : c ∈ alphabet.encodeChars bytes) : alphabet.IsWritten c := by
  fun_induction encodeChars alphabet bytes with
  | case1 => simp at hc
  | case2 a =>
      have ha := a.toNat_lt
      rcases List.mem_append.mp hc with hc | hc
      · simp only [List.mem_cons, List.not_mem_nil, or_false] at hc
        rcases hc with rfl | rfl
        · exact .inr ⟨_, by omega, rfl⟩
        · exact .inr ⟨_, by omega, rfl⟩
      · exact isWritten_of_mem_padding hc
  | case3 a b =>
      have ha := a.toNat_lt
      have hb := b.toNat_lt
      rcases List.mem_append.mp hc with hc | hc
      · simp only [List.mem_cons, List.not_mem_nil, or_false] at hc
        rcases hc with rfl | rfl | rfl
        · exact .inr ⟨_, by omega, rfl⟩
        · exact .inr ⟨_, by omega, rfl⟩
        · exact .inr ⟨_, by omega, rfl⟩
      · exact isWritten_of_mem_padding hc
  | case4 a b c rest ih =>
      have ha := a.toNat_lt
      have hb := b.toNat_lt
      have hlast := c.toNat_lt
      simp only [List.mem_cons] at hc
      rcases hc with rfl | rfl | rfl | rfl | hc
      · exact .inr ⟨_, by omega, rfl⟩
      · exact .inr ⟨_, by omega, rfl⟩
      · exact .inr ⟨_, by omega, rfl⟩
      · exact .inr ⟨_, by omega, rfl⟩
      · exact ih hc

theorem IsLawful.isAscii_of_isWritten (hlawful : alphabet.IsLawful) {c : Char}
    (hc : alphabet.IsWritten c) : IsAscii c := by
  rcases hc with rfl | ⟨value, hvalue, rfl⟩
  · decide
  · exact hlawful.isAscii value hvalue

theorem IsLawful.isBlank_of_isWritten (hlawful : alphabet.IsLawful) {c : Char}
    (hc : alphabet.IsWritten c) : isBlank c = false := by
  rcases hc with rfl | ⟨value, hvalue, rfl⟩
  · decide
  · exact hlawful.isNotBlank value hvalue

theorem IsLawful.isBlank_of_mem_encode (hlawful : alphabet.IsLawful) {bytes : List UInt8} {c : Char}
    (hc : c ∈ (alphabet.encode bytes).toList) : isBlank c = false := by
  rw [encode, String.toList_ofList] at hc
  exact hlawful.isBlank_of_isWritten (isWritten_of_mem_encodeChars hc)

theorem IsLawful.bytes_encode (hlawful : alphabet.IsLawful) (bytes : List UInt8) :
    Text.bytes (alphabet.encode bytes) = alphabet.written bytes :=
  bytes_ofList_of_isAscii fun _ hc =>
    hlawful.isAscii_of_isWritten (isWritten_of_mem_encodeChars hc)

theorem IsLawful.valueAt_symbol (hlawful : alphabet.IsLawful) (offset : Nat) {value : Nat}
    (hvalue : value < 64) :
    alphabet.valueAt offset (alphabet.symbol value).toUInt8 = .ok value := by
  rw [valueAt, hlawful.value?_symbol value hvalue]

/-! ## The last group -/

/-- A symbol byte with its value. -/
def entry (alphabet : Alphabet) (value : Nat) : UInt8 × Nat :=
  ((alphabet.symbol value).toUInt8, value)

/-- How many padding characters complete a last group of some symbols. -/
def pads (alphabet : Alphabet) (symbols : Nat) : Nat :=
  if alphabet.isPadded then 4 - symbols else 0

theorem IsLawful.readTail_symbols (hlawful : alphabet.IsLawful) (start : Nat) {values : List Nat}
    (hvalues : ∀ value ∈ values, value < 64) (symbols : List (UInt8 × Nat)) (rest : List UInt8) :
    alphabet.readTail start ⟨symbols, 0⟩ ((values.map alphabet.symbol).map Char.toUInt8 ++ rest) =
      alphabet.readTail start ⟨(values.map alphabet.entry).reverse ++ symbols, 0⟩ rest := by
  induction values generalizing symbols with
  | nil => rfl
  | cons value values ih =>
      have hvalue := hvalues value List.mem_cons_self
      rw [List.map_cons, List.map_cons, List.cons_append, readTail,
        if_neg (hlawful.isNotPad value hvalue), if_neg (not_not.mpr rfl),
        hlawful.valueAt_symbol _ hvalue]
      simp only
      rw [ih fun other hother => hvalues other (List.mem_cons_of_mem _ hother)]
      simp only [List.map_cons, List.reverse_cons, List.append_assoc, List.singleton_append, entry]

theorem readTail_pads (start : Nat) {tail : Tail} (hsymbols : 2 ≤ tail.symbols.length)
    (count : Nat) :
    alphabet.readTail start tail ((List.replicate count pad).map Char.toUInt8) =
      .ok { tail with pads := tail.pads + count } := by
  induction count generalizing tail with
  | zero => rfl
  | succ count ih =>
      have hnext := @ih { tail with pads := tail.pads + 1 } hsymbols
      rw [List.replicate_succ, List.map_cons, readTail, if_pos rfl, if_neg (by omega), hnext]
      simp only [Nat.add_assoc, Nat.add_comm 1 count]

/-- A last group is read to its symbols and its padding. -/
theorem IsLawful.readTail_group (hlawful : alphabet.IsLawful) (start : Nat) {values : List Nat}
    (hvalues : ∀ value ∈ values, value < 64) (hlength : 2 ≤ values.length) :
    alphabet.readTail start ⟨[], 0⟩
        ((values.map alphabet.symbol ++ alphabet.padding values.length).map Char.toUInt8) =
      .ok ⟨(values.map alphabet.entry).reverse, alphabet.pads values.length⟩ := by
  rw [List.map_append, hlawful.readTail_symbols start hvalues, List.append_nil]
  unfold padding pads
  split
  next => rw [readTail_pads start (by simpa using hlength), Nat.zero_add]
  next => rfl

/-- What stands in place of the bytes that a last group does not have is zero. -/
theorem finishTail_one (start : Nat) (x : UInt8) :
    alphabet.finishTail start
        ⟨[alphabet.entry (x.toNat % 4 * 16), alphabet.entry (x.toNat / 4)], alphabet.pads 2⟩ =
      .ok [x] := by
  have hrest : x.toNat % 4 * 16 % 16 = 0 := by omega
  have hgroup := groupBytes_one x
  cases hpadded : alphabet.isPadded <;>
    simp [finishTail, pads, entry, hpadded, hrest, hgroup]

theorem finishTail_two (start : Nat) (x y : UInt8) :
    alphabet.finishTail start
        ⟨[alphabet.entry (y.toNat % 16 * 4), alphabet.entry (x.toNat % 4 * 16 + y.toNat / 16),
          alphabet.entry (x.toNat / 4)], alphabet.pads 3⟩ =
      .ok [x, y] := by
  have hrest : y.toNat % 16 * 4 % 4 = 0 := by omega
  have hgroup := groupBytes_two x y
  cases hpadded : alphabet.isPadded <;>
    simp [finishTail, pads, entry, hpadded, hrest, hgroup]

theorem finishTail_three (start : Nat) (x y z : UInt8) :
    alphabet.finishTail start
        ⟨[alphabet.entry (z.toNat % 64), alphabet.entry (y.toNat % 16 * 4 + z.toNat / 64),
          alphabet.entry (x.toNat % 4 * 16 + y.toNat / 16), alphabet.entry (x.toNat / 4)],
          alphabet.pads 4⟩ =
      .ok [x, y, z] := by
  have hgroup := groupBytes_eq x y z
  cases hpadded : alphabet.isPadded <;>
    simp [finishTail, pads, entry, hpadded, hgroup]

theorem length_padding_le (symbols : Nat) : (alphabet.padding symbols).length ≤ 4 - symbols := by
  unfold padding
  split
  next => exact Nat.le_of_eq List.length_replicate
  next => exact Nat.zero_le _

theorem IsLawful.readGroups_group (hlawful : alphabet.IsLawful) (start : Nat) (read : List UInt8)
    (values : List Nat) {bytes : List UInt8} (hvalues : ∀ value ∈ values, value < 64)
    (hmin : 2 ≤ values.length) (hmax : values.length ≤ 4)
    (hbytes : alphabet.finishTail start
      ⟨(values.map alphabet.entry).reverse, alphabet.pads values.length⟩ = .ok bytes) :
    alphabet.readGroups start read
        ((values.map alphabet.symbol ++ alphabet.padding values.length).map Char.toUInt8) =
      .ok (read.reverse ++ bytes) := by
  have htail := hlawful.readTail_group start hvalues hmin
  have hpadding := alphabet.length_padding_le values.length
  have hlength : ((values.map alphabet.symbol ++ alphabet.padding values.length).map
      Char.toUInt8).length ≤ 4 := by
    rw [List.length_map, List.length_append, List.length_map]
    omega
  revert htail hlength
  generalize (values.map alphabet.symbol ++ alphabet.padding values.length).map
    Char.toUInt8 = last
  intro htail hlength
  unfold readGroups
  split
  next =>
    simp only [List.length_cons] at hlength
    omega
  next => simp only [htail, hbytes, bind, Except.bind, pure, Except.pure]

/-! ## Whole byte strings -/

theorem encodeChars_eq_cons (alphabet : Alphabet) {bytes : List UInt8} (hne : bytes ≠ []) :
    ∃ c rest, alphabet.encodeChars bytes = c :: rest := by
  fun_cases encodeChars alphabet bytes with
  | case1 => exact absurd rfl hne
  | case2 => exact ⟨_, _, rfl⟩
  | case3 => exact ⟨_, _, rfl⟩
  | case4 => exact ⟨_, _, rfl⟩

theorem IsLawful.readGroups_written (hlawful : alphabet.IsLawful) {bytes : List UInt8}
    (hne : bytes ≠ []) (start : Nat) (read : List UInt8) :
    alphabet.readGroups start read (alphabet.written bytes) = .ok (read.reverse ++ bytes) := by
  unfold written
  fun_induction encodeChars alphabet bytes generalizing start read with
  | case1 => exact absurd rfl hne
  | case2 x =>
      have hx := x.toNat_lt
      refine hlawful.readGroups_group start read [x.toNat / 4, x.toNat % 4 * 16]
        (fun value hvalue => ?_) (by simp) (by simp) (finishTail_one start x)
      simp only [List.mem_cons, List.not_mem_nil, or_false] at hvalue
      omega
  | case3 x y =>
      have hx := x.toNat_lt
      have hy := y.toNat_lt
      refine hlawful.readGroups_group start read
        [x.toNat / 4, x.toNat % 4 * 16 + y.toNat / 16, y.toNat % 16 * 4]
        (fun value hvalue => ?_) (by simp) (by simp) (finishTail_two start x y)
      simp only [List.mem_cons, List.not_mem_nil, or_false] at hvalue
      omega
  | case4 x y z rest ih =>
      have hx := x.toNat_lt
      have hy := y.toNat_lt
      have hz := z.toNat_lt
      -- Four symbols at the end are read as a last group, and anywhere else as a full one.
      cases rest with
      | nil =>
          have hpadding : alphabet.padding 4 = [] := by simp [padding]
          have hgroup := hlawful.readGroups_group start read
            [x.toNat / 4, x.toNat % 4 * 16 + y.toNat / 16,
              y.toNat % 16 * 4 + z.toNat / 64, z.toNat % 64]
            (fun value hvalue => ?_) (by simp) (by simp) (finishTail_three start x y z)
          · simpa [hpadding, encodeChars] using hgroup
          · simp only [List.mem_cons, List.not_mem_nil, or_false] at hvalue
            omega
      | cons next rest =>
          have hrest := ih (List.cons_ne_nil next rest) (start + 4) ([z, y, x] ++ read)
          obtain ⟨c, more, hmore⟩ := encodeChars_eq_cons alphabet
            (List.cons_ne_nil next rest)
          rw [hmore, List.map_cons] at hrest ⊢
          simp only [List.map_cons, readGroups, bind, Except.bind,
            hlawful.valueAt_symbol _ (show x.toNat / 4 < 64 by omega),
            hlawful.valueAt_symbol _ (show x.toNat % 4 * 16 + y.toNat / 16 < 64 by omega),
            hlawful.valueAt_symbol _ (show y.toNat % 16 * 4 + z.toNat / 64 < 64 by omega),
            hlawful.valueAt_symbol _ (show z.toNat % 64 < 64 by omega), groupBytes_eq]
          simpa using hrest

/-- No written form is taken for one with a stray end. -/
theorem IsLawful.strayEnd?_written (hlawful : alphabet.IsLawful) (bytes : List UInt8) :
    alphabet.strayEnd? (alphabet.written bytes) = none := by
  unfold strayEnd?
  split
  next => rfl
  next last hlast =>
    rw [if_neg]
    rintro ⟨-, hpad, hvalue⟩
    obtain ⟨c, hc, rfl⟩ := List.mem_map.mp (List.mem_of_getLast? hlast)
    -- The last byte is padding or has a value, and neither is stray.
    rcases isWritten_of_mem_encodeChars hc with rfl | ⟨value, hlt, rfl⟩
    · exact hpad rfl
    · rw [hlawful.value?_symbol value hlt] at hvalue
      simp at hvalue

theorem IsLawful.decodeBytes_written (hlawful : alphabet.IsLawful) (bytes : List UInt8) :
    alphabet.decodeBytes (alphabet.written bytes) = .ok bytes := by
  cases bytes with
  | nil => rfl
  | cons b rest =>
      have hne := List.cons_ne_nil b rest
      obtain ⟨c, more, hmore⟩ := encodeChars_eq_cons alphabet hne
      have hstray := hlawful.strayEnd?_written (b :: rest)
      have hgroups := hlawful.readGroups_written hne 0 []
      rw [written, hmore, List.map_cons] at hstray hgroups ⊢
      simp only [decodeBytes, hstray, hgroups, List.reverse_nil, List.nil_append]

/-- A byte string is read back from its written form. -/
theorem IsLawful.decode_encode (hlawful : alphabet.IsLawful) (bytes : List UInt8) :
    alphabet.decode (alphabet.encode bytes) = .ok bytes := by
  rw [decode, hlawful.bytes_encode]
  exact hlawful.decodeBytes_written bytes

end Alphabet

end Entitlement.Base64
