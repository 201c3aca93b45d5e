import Entitlement.Json.Compound
import Entitlement.Proofs.Json.Reading
import Entitlement.Proofs.Json.Skip

/-! # What readers read from trees

What a reader reads from a document is decided by the tree that the document spells: either a value,
however the tree is spelled and whatever follows, or nothing at all. So blanks never matter. A
string has its text whatever stands behind it, although two escapes may stand for one character; a
number is natural if nothing but digits have been written.
-/

namespace Entitlement.Json

open Text (digitValue)

variable {α β : Type}

namespace Reader

/-- A reader reads a value from every spelling of a tree, or fails on all of them if there is
none. -/
def Reads (reader : Reader α) (tree : Tree) (value? : Option α) : Prop :=
  ∀ ws v rest, IsBlank ws → Spelling (.value tree) v → EndsValue rest →
    (reader.run (ws ++ (v ++ rest))).toOption = value?.map (·, rest)

/-- A result with a value leaves the rest, and no value is an error. -/
theorem cases_of_toOption {result : Except ReadError (α × List UInt8)} {value? : Option α}
    {rest : List UInt8} (hresult : result.toOption = value?.map (·, rest)) :
    (∃ value, value? = some value ∧ result = .ok (value, rest)) ∨
      (value? = none ∧ ∃ e, result = .error e) := by
  cases result with
  | error e =>
      cases value? with
      | none => exact .inr ⟨rfl, e, rfl⟩
      | some value => cases hresult
  | ok result =>
      cases value? with
      | none => cases hresult
      | some value =>
          cases hresult
          exact .inl ⟨value, rfl, rfl⟩

theorem Reads.read {reader : Reader α} {tree : Tree} {value? : Option α}
    (hreads : reader.Reads tree value?) {document : List UInt8}
    (hdocument : IsDocument tree document) :
    (reader.read document).toOption = value? := by
  obtain ⟨before, v, after, hbefore, hv, hafter, rfl⟩ := hdocument
  have hrun := hreads before v after hbefore hv (endsValue_of_isBlank hafter)
  unfold Reader.read
  rcases cases_of_toOption hrun with ⟨value, rfl, hok⟩ | ⟨rfl, e, herror⟩
  · simp only [hok, skipSpace_of_isBlank hafter, if_true]
    rfl
  · rw [herror]
    rfl

theorem Reads.check {reader : Reader α} {tree : Tree} {value? : Option α}
    (hreads : reader.Reads tree value?) (f : α → Except ReadError β) :
    (reader.check f).Reads tree (value?.bind fun value => (f value).toOption) := by
  intro ws v rest hws hv hrest
  rcases cases_of_toOption (hreads ws v rest hws hv hrest) with ⟨value, rfl, hok⟩ | ⟨rfl, e, herror⟩
  · simp only [Reader.check, hok, Option.bind_some]
    cases f value <;> rfl
  · simp only [Reader.check, herror]
    rfl

theorem Reads.map {reader : Reader α} {tree : Tree} {value? : Option α}
    (hreads : reader.Reads tree value?) (f : α → β) : (reader.map f).Reads tree (value?.map f) := by
  have hmap : value?.map f = value?.bind fun value =>
      (.ok (f value) : Except ReadError β).toOption := by
    cases value? <;> rfl
  rw [hmap]
  exact hreads.check _

/-- What is read goes into a state of its own first and is taken over from there. -/
theorem Reads.map_of_eq {γ : Type} {reader : Reader α} {tree : Tree} {value? : Option α}
    (hreads : reader.Reads tree value?) {f : α → β} {embed : α → γ} {pick : γ → β}
    (hsame : ∀ value, pick (embed value) = f value) :
    (reader.map f).Reads tree ((value?.map embed).map pick) := by
  have hcomp : pick ∘ embed = f := funext hsame
  rw [Option.map_map, hcomp]
  exact hreads.map f

theorem reads_skip (tree : Tree) : Reader.skip.Reads tree (some ()) := by
  intro ws v rest hws hv hrest
  rw [run_skip hws hv hrest]
  rfl

theorem runOnFirst_append {step : UInt8 → List UInt8 → Except ReadError (α × List UInt8)}
    {ws : List UInt8} (hws : IsBlank ws) {b : UInt8} (hb : isSpace b = false) (rest : List UInt8) :
    runOnFirst step (ws ++ b :: rest) = step b rest := by
  rw [runOnFirst, skipSpace_append hws hb]

theorem run_onFirst {reader : Reader α}
    {step : UInt8 → List UInt8 → Except ReadError (α × List UInt8)}
    (hrun : reader.run = runOnFirst step) {ws : List UInt8} (hws : IsBlank ws) {b : UInt8}
    (hb : isSpace b = false) (rest : List UInt8) : reader.run (ws ++ b :: rest) = step b rest := by
  rw [hrun, runOnFirst_append hws hb]

end Reader

/-! ## Strings -/

/-- The text of a string that is spelled by a body, if the body is UTF-8 and its escapes make up
characters. -/
def textOf (body : List UInt8) : Option String :=
  (readString (body ++ [byte '"'])).toOption.map Prod.fst

/-- A scanner is done with a body at its closing quote, whatever follows. -/
def EndsAtQuote (scan : List UInt8 → Except ReadError (α × List UInt8)) (body : List UInt8) :
    Prop :=
  ∃ value? : Option α, ∀ rest, (scan (body ++ byte '"' :: rest)).toOption = value?.map (·, rest)

theorem endsAtQuote_of_error {scan : List UInt8 → Except ReadError (α × List UInt8)}
    {body : List UInt8} (herror : ∀ rest, ∃ e, scan (body ++ byte '"' :: rest) = .error e) :
    EndsAtQuote scan body := by
  refine ⟨none, fun rest => ?_⟩
  obtain ⟨e, he⟩ := herror rest
  rw [he]
  rfl

theorem EndsAtQuote.congr {scan scan' : List UInt8 → Except ReadError (α × List UInt8)}
    {body body' : List UInt8} (hends : EndsAtQuote scan body)
    (hsame : ∀ rest, scan' (body' ++ byte '"' :: rest) = scan (body ++ byte '"' :: rest)) :
    EndsAtQuote scan' body' := by
  obtain ⟨value?, hvalue⟩ := hends
  exact ⟨value?, fun rest => (congrArg Except.toOption (hsame rest)).trans (hvalue rest)⟩

/-- Reads on after an escaped code unit of which the other half has to follow. -/
def readCharsAfterHigh (high : Nat) (seen s : List UInt8) :
    Except ReadError (List UInt8 × List UInt8) :=
  match readLowUnit high s with
  | .error e => .error e
  | .ok (c, after) => readChars ((String.utf8EncodeChar c).reverse ++ seen) after

theorem readChars_of_error (seen : List UInt8) {s : List UInt8} {e : ReadError}
    (hescape : readEscape s = .error e) : readChars seen (byte '\\' :: s) = .error e := by
  rw [readChars, if_neg (by decide), if_pos rfl]
  split
  next herror => exact congrArg Except.error (Except.error.inj (herror.symm.trans hescape))
  next hok => cases hescape.symm.trans hok

/-- After the first half of a pair the scanner goes on with the second one. -/
theorem readChars_of_high (seen : List UInt8) {high : Nat} {s after : List UInt8}
    (hescape : readEscape s = readLowUnit high after) :
    readChars seen (byte '\\' :: s) = readCharsAfterHigh high seen after := by
  unfold readCharsAfterHigh
  cases hlow : readLowUnit high after with
  | error e => exact readChars_of_error seen (hescape.trans hlow)
  | ok result => exact readChars_escaped seen (hescape.trans hlow)

theorem readCharsAfterHigh_of_error {high : Nat} (seen : List UInt8) {s : List UInt8}
    {e : ReadError} (hlow : readLowUnit high s = .error e) :
    readCharsAfterHigh high seen s = .error e := by
  rw [readCharsAfterHigh, hlow]

theorem readCharsAfterHigh_of_ok {high : Nat} (seen : List UInt8) {s after : List UInt8} {c : Char}
    (hlow : readLowUnit high s = .ok (c, after)) :
    readCharsAfterHigh high seen s =
      readChars ((String.utf8EncodeChar c).reverse ++ seen) after := by
  rw [readCharsAfterHigh, hlow]

/-- Only an escape by code unit can follow the first half of a pair. -/
theorem readCharsAfterHigh_of_ne (high : Nat) (seen : List UInt8) {s : List UInt8}
    (hs : ∀ more, s ≠ byte '\\' :: byte 'u' :: more) :
    ∃ e, readCharsAfterHigh high seen s = .error e := by
  unfold readCharsAfterHigh readLowUnit
  cases s with
  | nil => exact ⟨_, rfl⟩
  | cons b s =>
      by_cases hb : b = byte '\\'
      · cases s with
        | nil => simp [readPairByte, hb, bind, Except.bind]
        | cons b' s =>
            have hb' : b' ≠ byte 'u' := by
              rintro rfl
              exact hs s (by rw [hb])
            simp [readPairByte, hb, hb', bind, Except.bind]
      · simp [readPairByte, hb, bind, Except.bind]

theorem readEscape_letter {b : UInt8} (hb : b ∈ escapeLetters) :
    ∃ c, ∀ rest, readEscape (b :: rest) = .ok (c, rest) := by
  obtain ⟨c, hc⟩ := Option.isSome_iff_exists.mp (isSome_shortEscape? b hb)
  exact ⟨c, fun rest => by simp only [readEscape, hc]⟩

/-- What becomes of a code unit: it is half of a pair that has to go on, or a character, or
neither. -/
theorem readEscape_unit_cases {a b c d : UInt8} (ha : IsHexDigit a) (hb : IsHexDigit b)
    (hc : IsHexDigit c) (hd : IsHexDigit d) :
    (∀ rest, ∃ e, readEscape (byte 'u' :: a :: b :: c :: d :: rest) = .error e) ∨
      (∃ high, ∀ rest, readEscape (byte 'u' :: a :: b :: c :: d :: rest) = readLowUnit high rest) ∨
      ∃ char, ∀ rest, readEscape (byte 'u' :: a :: b :: c :: d :: rest) = .ok (char, rest) := by
  obtain ⟨unit, hunit⟩ := exists_readUnit ha hb hc hd
  have hshort : shortEscape? (byte 'u') = none := by decide
  simp only [readEscape, hshort, if_true, readUnicode, hunit]
  by_cases hlow : 0xDC00 ≤ unit ∧ unit ≤ 0xDFFF
  · simp only [if_pos hlow]
    exact .inl fun _ => ⟨_, rfl⟩
  · by_cases hhigh : 0xD800 ≤ unit ∧ unit ≤ 0xDBFF
    · simp only [if_neg hlow, if_pos hhigh]
      exact .inr (.inl ⟨unit, fun _ => rfl⟩)
    · simp only [if_neg hlow, if_neg hhigh]
      exact .inr (.inr ⟨_, fun _ => rfl⟩)

theorem readLowUnit_cases (high : Nat) {a b c d : UInt8} (ha : IsHexDigit a) (hb : IsHexDigit b)
    (hc : IsHexDigit c) (hd : IsHexDigit d) :
    (∀ rest, ∃ e,
        readLowUnit high (byte '\\' :: byte 'u' :: a :: b :: c :: d :: rest) = .error e) ∨
      ∃ char, ∀ rest,
        readLowUnit high (byte '\\' :: byte 'u' :: a :: b :: c :: d :: rest) =
          .ok (char, rest) := by
  obtain ⟨low, hlow⟩ := exists_readUnit ha hb hc hd
  simp only [readLowUnit, readPairByte, if_true, bind, Except.bind, hlow]
  by_cases hrange : low < 0xDC00 ∨ 0xDFFF < low
  · simp only [if_pos hrange]
    exact .inl fun _ => ⟨_, rfl⟩
  · simp only [if_neg hrange]
    exact .inr ⟨_, fun _ => rfl⟩

/-- The induction goes through a body with two scanners at once: the one that reads characters, and
the one that has read the first half of a pair. -/
theorem readChars_body {body : List UInt8} (hbody : IsBody body) :
    (∀ seen, EndsAtQuote (readChars seen) body) ∧
      ∀ high seen, EndsAtQuote (readCharsAfterHigh high seen) body := by
  induction hbody with
  | nil =>
      constructor
      · intro seen
        refine ⟨some seen.reverse, fun rest => ?_⟩
        rw [List.nil_append, readChars, if_pos rfl]
        rfl
      · intro high seen
        apply endsAtQuote_of_error
        intro rest
        exact readCharsAfterHigh_of_ne high seen fun more heq => by cases heq
  | @plain b more hb _ ih =>
      constructor
      · intro seen
        exact (ih.1 (b :: seen)).congr fun rest =>
          readChars_plain seen (List.forall_mem_singleton.mpr hb) (more ++ byte '"' :: rest)
      · intro high seen
        apply endsAtQuote_of_error
        intro rest
        exact readCharsAfterHigh_of_ne high seen fun more heq => hb.2.1 (List.cons.inj heq).1
  | @letter b more hb _ ih =>
      constructor
      · intro seen
        obtain ⟨c, hc⟩ := readEscape_letter hb
        exact (ih.1 _).congr fun rest => readChars_escaped seen (hc (more ++ byte '"' :: rest))
      · intro high seen
        apply endsAtQuote_of_error
        intro rest
        refine readCharsAfterHigh_of_ne high seen fun more heq => ?_
        obtain ⟨-, heq⟩ := List.cons.inj heq
        obtain ⟨rfl, -⟩ := List.cons.inj heq
        exact absurd hb (by decide)
  | @unit a b c d more ha hb hc hd _ ih =>
      constructor
      · intro seen
        rcases readEscape_unit_cases ha hb hc hd with herror | ⟨high, hhigh⟩ | ⟨char, hchar⟩
        · apply endsAtQuote_of_error
          intro rest
          obtain ⟨e, he⟩ := herror (more ++ byte '"' :: rest)
          exact ⟨e, readChars_of_error seen he⟩
        · exact (ih.2 high seen).congr fun rest =>
            readChars_of_high seen (hhigh (more ++ byte '"' :: rest))
        · exact (ih.1 _).congr fun rest => readChars_escaped seen (hchar (more ++ byte '"' :: rest))
      · intro high seen
        rcases readLowUnit_cases high ha hb hc hd with herror | ⟨char, hchar⟩
        · apply endsAtQuote_of_error
          intro rest
          obtain ⟨e, he⟩ := herror (more ++ byte '"' :: rest)
          exact ⟨e, readCharsAfterHigh_of_error seen he⟩
        · exact (ih.1 _).congr fun rest =>
            readCharsAfterHigh_of_ok seen (hchar (more ++ byte '"' :: rest))

/-- The text of a body is read whatever follows its closing quote. -/
theorem readString_body {body : List UInt8} (hbody : IsBody body) (rest : List UInt8) :
    (readString (body ++ byte '"' :: rest)).toOption = (textOf body).map (·, rest) := by
  have hends : EndsAtQuote readString body := by
    obtain ⟨read?, hread⟩ := (readChars_body hbody).1 []
    refine ⟨read?.bind Text.ofBytes?, fun rest => ?_⟩
    unfold readString
    rcases Reader.cases_of_toOption (hread rest) with ⟨bytes, rfl, hok⟩ | ⟨rfl, e, herror⟩
    · simp only [hok, Option.bind_some]
      cases Text.ofBytes? bytes <;> rfl
    · simp only [herror]
      rfl
  obtain ⟨value?, hvalue⟩ := hends
  have htext : textOf body = value? := by
    rw [textOf, hvalue []]
    cases value? <;> rfl
  rw [htext, hvalue rest]

/-- The text of a tree that is a string. -/
def Tree.text? : Tree → Option String
  | .string body => textOf body
  | _ => none

namespace Reader

/-- A reader for strings reads the texts of strings and nothing else. -/
theorem reads_text (expected : String) (tree : Tree) : (text expected).Reads tree tree.text? := by
  intro ws v rest hws hv hrest
  obtain ⟨b, more, rfl, hb⟩ := hv.exists_cons
  rw [List.cons_append, run_onFirst rfl hws hb.isSpace]
  cases tree with
  | string body =>
      cases hv with
      | string hbody =>
          rw [if_pos rfl, List.append_assoc]
          exact readString_body hbody rest
  | truth value => cases value <;> cases hb <;> rfl
  | number text =>
      rw [if_neg (ne_of_opensNumber hb (by decide))]
      rfl
  | _ => cases hb; rfl

theorem reads_string (tree : Tree) : string.Reads tree tree.text? :=
  reads_text "a string" tree

end Reader

/-! ## Numbers -/

/-- A scanner does not find a natural number. -/
def FindsNoNatural (result : Except ReadError (Number × List UInt8)) : Prop :=
  ∀ n rest, result ≠ .ok (.natural n, rest)

theorem findsNoNatural_toFraction (digits : Digits) (isNegative : Bool) (exponent : Int)
    (rest : List UInt8) :
    FindsNoNatural ((digits.toFraction isNegative exponent).map (·, rest)) := by
  intro n after hresult
  unfold Digits.toFraction at hresult
  split at hresult <;> cases hresult

theorem findsNoNatural_readExponent (isNegative : Bool) (digits : Digits) (s : List UInt8) :
    FindsNoNatural (readExponent isNegative digits s) := by
  unfold readExponent
  dsimp only
  split
  next =>
    intro n rest hresult
    cases hresult
  next =>
    unfold Digits.scaled
    split
    next =>
      split
      next =>
        intro n rest hresult
        cases hresult
      next =>
        intro n rest hresult
        cases hresult
    next => exact findsNoNatural_toFraction _ _ _ _

theorem findsNoNatural_toNumber {digits : Digits} {isNegative : Bool}
    (hdigits : digits.isFull = true ∨ isNegative = true) (rest : List UInt8) :
    FindsNoNatural ((digits.toNumber isNegative).map (·, rest)) := by
  unfold Digits.toNumber
  split
  next => exact findsNoNatural_toFraction _ _ _ _
  next hkept =>
    obtain rfl := hdigits.resolve_left hkept
    rw [if_neg (not_not_intro rfl)]
    split
    next => exact findsNoNatural_toFraction _ _ _ _
    next =>
      intro n after hresult
      cases hresult

/-- A point or an exponent makes a fraction. -/
theorem findsNoNatural_readAfterWhole (isNegative : Bool) (digits : Digits) {b : UInt8}
    (hb : b = byte '.' ∨ b = byte 'e' ∨ b = byte 'E') (s : List UInt8) :
    FindsNoNatural (readAfterWhole isNegative digits (b :: s)) := by
  unfold readAfterWhole
  dsimp only
  split
  next =>
    split
    next =>
      intro n rest hresult
      cases hresult
    next =>
      split
      next => exact findsNoNatural_readExponent _ _ _
      next => exact findsNoNatural_toFraction _ _ _ _
  next hpoint =>
    rw [if_pos (hb.resolve_left hpoint)]
    exact findsNoNatural_readExponent _ _ _

/-- Digits of a number that does not fit are not all kept. -/
theorem isFull_foldl_addWhole {digits : List UInt8} {kept : Digits}
    (hkept : kept.significand < wordBound)
    (hlarge : kept.isFull = true ∨ wordBound ≤ digitValue kept.significand digits) :
    (digits.foldl Digits.addWhole kept).isFull = true := by
  induction digits generalizing kept with
  | nil => exact hlarge.resolve_right (Nat.not_le.mpr hkept)
  | cons b digits ih =>
      rw [List.foldl_cons]
      unfold Digits.addWhole
      dsimp only
      split
      next => exact ih hkept (.inl rfl)
      next hfits =>
        obtain ⟨hnotFull, hnext⟩ := not_or.mp hfits
        exact ih (Nat.not_le.mp hnext) (.inr (hlarge.resolve_left hnotFull))

theorem readAfterWhole_of_endsValue (isNegative : Bool) (digits : Digits) {rest : List UInt8}
    (hrest : EndsValue rest) :
    readAfterWhole isNegative digits rest = (digits.toNumber isNegative).map (·, rest) := by
  cases rest with
  | nil => rfl
  | cons b after =>
      obtain ⟨-, hpoint, hlower, hupper⟩ := hrest.head
      rw [readAfterWhole, if_neg hpoint, if_neg (not_or.mpr ⟨hlower, hupper⟩)]

/-- What is read of a number: its digits before the point, and what follows them. -/
theorem readNumber_whole (isNegative : Bool) {whole rest : List UInt8} (hwhole : IsWhole whole)
    (hrest : ∀ b more, rest = b :: more → Text.isDigit b = false) :
    readNumber isNegative (whole ++ rest) =
      readAfterWhole isNegative (whole.foldl Digits.addWhole ⟨0, 0, false⟩) rest := by
  obtain ⟨hdigits, hzero⟩ := hwhole
  obtain ⟨htake, hdrop⟩ := span_isDigits hdigits hrest
  unfold readNumber
  simp only [htake, hdrop]
  cases whole with
  | nil => exact absurd rfl hdigits.1
  | cons first more =>
      have hkept : ¬ (first = byte '0' ∧ more ≠ []) := by
        rintro ⟨rfl, hne⟩
        exact hne (hzero more rfl)
      exact if_neg hkept

/-- The number that a tree is, if it has been written with nothing but digits and lies below a
bound. -/
def Tree.natural? (bound : Nat) : Tree → Option Nat
  | .number text =>
    if text.all Text.isDigit ∧ digitValue 0 text < bound then some (digitValue 0 text) else none
  | _ => none

/-- The word of 64 bits that a tree is. -/
def Tree.word64? (tree : Tree) : Option UInt64 :=
  (tree.natural? UInt64.size).map UInt64.ofNat

/-- The word of 32 bits that a tree is. -/
def Tree.word32? (tree : Tree) : Option UInt32 :=
  (tree.natural? UInt32.size).map UInt32.ofNat

/-- A number without a sign is natural if it is written with digits alone and fits. -/
theorem readNumber_unsigned {text rest : List UInt8} (htext : IsUnsigned text)
    (hrest : EndsValue rest) :
    (text.all Text.isDigit = true ∧ digitValue 0 text < wordBound ∧
        readNumber false (text ++ rest) = .ok (.natural (digitValue 0 text), rest)) ∨
      (¬ (text.all Text.isDigit = true ∧ digitValue 0 text < wordBound) ∧
        FindsNoNatural (readNumber false (text ++ rest))) := by
  obtain @⟨whole, fraction, exponent, hwhole, hfraction, hexponent⟩ := htext
  have hread := readNumber_whole false hwhole (not_isDigit_afterWhole hfraction hexponent hrest)
  rw [List.append_assoc, List.append_assoc, hread]
  -- Behind the digits there is a point, an exponent or nothing.
  cases hfraction with
  | point hds =>
      refine .inr ⟨fun ⟨hall, _⟩ => ?_, findsNoNatural_readAfterWhole _ _ (.inl rfl) _⟩
      have hpoint := List.all_eq_true.mp hall (byte '.') (by simp)
      exact absurd hpoint (by decide)
  | none =>
      cases hexponent with
      | @mark b sign ds hb hsign hds =>
          refine .inr ⟨fun ⟨hall, _⟩ => ?_, findsNoNatural_readAfterWhole _ _ (.inr hb) _⟩
          have hmark := List.all_eq_true.mp hall b (by simp)
          rcases hb with rfl | rfl <;> exact absurd hmark (by decide)
      | none =>
          have hall : whole.all Text.isDigit = true :=
            List.all_eq_true.mpr fun b hb => Text.isDigit_iff.mpr (hwhole.1.2 b hb)
          simp only [List.nil_append, List.append_nil, hall, true_and]
          rw [readAfterWhole_of_endsValue _ _ hrest]
          rcases Nat.lt_or_ge (digitValue 0 whole) wordBound with hfits | hlarge
          · rw [foldl_addWhole hfits]
            exact .inl ⟨hfits, rfl⟩
          · have hfull : (whole.foldl Digits.addWhole ⟨0, 0, false⟩).isFull = true :=
              isFull_foldl_addWhole (by decide) (.inr hlarge)
            exact .inr ⟨Nat.not_lt.mpr hlarge, findsNoNatural_toNumber (.inl hfull) rest⟩

/-- A number with a sign is never natural. -/
theorem findsNoNatural_negative {text rest : List UInt8} (htext : IsUnsigned text)
    (hrest : EndsValue rest) : FindsNoNatural (readNumber true (text ++ rest)) := by
  obtain @⟨whole, fraction, exponent, hwhole, hfraction, hexponent⟩ := htext
  have hread := readNumber_whole true hwhole (not_isDigit_afterWhole hfraction hexponent hrest)
  rw [List.append_assoc, List.append_assoc, hread]
  cases hfraction with
  | point hds => exact findsNoNatural_readAfterWhole _ _ (.inl rfl) _
  | none =>
      cases hexponent with
      | mark hb hsign hds => exact findsNoNatural_readAfterWhole _ _ (.inr hb) _
      | none =>
          rw [List.nil_append, List.nil_append, readAfterWhole_of_endsValue _ _ hrest]
          exact findsNoNatural_toNumber (.inr rfl) rest

namespace Reader

section Natural

variable {bound : Nat} {expected : String} {ws s rest : List UInt8} {b : UInt8}
  {result : Except ReadError (Number × List UInt8)}

theorem run_natural_of_findsNoNatural (hws : IsBlank ws) (hb : isSpace b = false)
    (hresult : (if b = byte '-' then readNumber true s
      else if Text.isDigit b then readNumber false (b :: s)
      else .error (mistyped expected b s)) = result) (hnone : FindsNoNatural result) :
    ((natural bound expected).run (ws ++ b :: s)).toOption = none := by
  simp only [natural, Reader.check, onFirst, runOnFirst_append hws hb, hresult]
  cases result with
  | error e => rfl
  | ok found =>
      obtain ⟨number, after⟩ := found
      cases number with
      | natural n => exact absurd rfl (hnone n after)
      | negative magnitude => rfl
      | fraction isNegative magnitude => rfl

theorem run_natural_of_ok {n : Nat} (hws : IsBlank ws) (hb : isSpace b = false)
    (hresult : (if b = byte '-' then readNumber true s
      else if Text.isDigit b then readNumber false (b :: s)
      else .error (mistyped expected b s)) = .ok (.natural n, rest)) :
    ((natural bound expected).run (ws ++ b :: s)).toOption =
      if n < bound then some (n, rest) else none := by
  simp only [natural, Reader.check, onFirst, runOnFirst_append hws hb, hresult]
  split <;> rfl

/-- A text that does not start like a number holds none. -/
theorem run_natural_of_ne (hws : IsBlank ws) (hb : isSpace b = false) (hminus : b ≠ byte '-')
    (hdigit : Text.isDigit b = false) :
    ((natural bound expected).run (ws ++ b :: s)).toOption = none := by
  refine run_natural_of_findsNoNatural hws hb rfl ?_
  rw [if_neg hminus, if_neg (Bool.eq_false_iff.mp hdigit)]
  intro n after hresult
  cases hresult

theorem run_natural_negative {text : List UInt8} (hws : IsBlank ws) (htext : IsUnsigned text)
    (hrest : EndsValue rest) :
    ((natural bound expected).run (ws ++ byte '-' :: (text ++ rest))).toOption = none :=
  run_natural_of_findsNoNatural hws (by decide) (if_pos rfl) (findsNoNatural_negative htext hrest)

theorem run_natural_unsigned {text : List UInt8} (hbound : bound ≤ wordBound) (hws : IsBlank ws)
    (htext : IsUnsigned text) (hrest : EndsValue rest) :
    ((natural bound expected).run (ws ++ (text ++ rest))).toOption =
      ((Tree.number text).natural? bound).map (·, rest) := by
  obtain ⟨b, more, rfl, hdigit⟩ := htext.exists_cons
  have hminus : b ≠ byte '-' := by
    rintro rfl
    exact absurd (Text.isDigit_iff.mpr hdigit) (by decide)
  have hstep : (if b = byte '-' then readNumber true (more ++ rest)
      else if Text.isDigit b then readNumber false (b :: (more ++ rest))
      else .error (mistyped expected b (more ++ rest))) = readNumber false (b :: more ++ rest) := by
    rw [if_neg hminus, if_pos (Text.isDigit_iff.mpr hdigit)]
    rfl
  have hspace := isSpace_of_isDigit hdigit
  rcases readNumber_unsigned htext hrest with ⟨hall, hfits, hok⟩ | ⟨hnot, hnone⟩
  · refine (run_natural_of_ok hws hspace (hstep.trans hok)).trans ?_
    rw [Tree.natural?]
    simp only [hall, true_and]
    split <;> rfl
  · have hlarge : (Tree.number (b :: more)).natural? bound = none :=
      if_neg fun ⟨hall, hlt⟩ => hnot ⟨hall, Nat.lt_of_lt_of_le hlt hbound⟩
    rw [hlarge]
    exact run_natural_of_findsNoNatural hws hspace hstep hnone

/-- A reader for natural numbers reads numbers that are written with digits alone and lie below its
bound, and nothing else. -/
theorem reads_natural (expected : String) (hbound : bound ≤ wordBound) (tree : Tree) :
    (natural bound expected).Reads tree (tree.natural? bound) := by
  intro ws v rest hws hv hrest
  cases tree with
  | number text =>
      cases hv with
      | number htext =>
          cases htext with
          | unsigned htext => exact run_natural_unsigned hbound hws htext hrest
          | @negative text htext =>
              have hminus : Text.isDigit (byte '-') = false := by decide
              have hnone : (Tree.number (byte '-' :: text)).natural? bound = none := by
                simp [Tree.natural?, hminus]
              rw [hnone]
              exact run_natural_negative hws htext hrest
  | truth value =>
      obtain ⟨b, more, rfl, hb⟩ := hv.exists_cons
      cases value <;> cases hb <;>
        exact run_natural_of_ne hws (by decide) (by decide) (by decide)
  | _ =>
      obtain ⟨b, more, rfl, hb⟩ := hv.exists_cons
      cases hb
      exact run_natural_of_ne hws (by decide) (by decide) (by decide)

end Natural

theorem reads_word64 (tree : Tree) : word64.Reads tree tree.word64? :=
  (reads_natural "u64" (Nat.le_refl _) tree).map UInt64.ofNat

theorem reads_word32 (tree : Tree) : word32.Reads tree tree.word32? :=
  (reads_natural "u32" (by decide) tree).map UInt32.ofNat

end Reader

end Entitlement.Json
