import Entitlement.Json.Skip
import Entitlement.Proofs.Json.Tree

/-! # Every value can be passed over

Whatever a text spells, it is passed over to its end and no further, whatever follows.
-/

namespace Entitlement.Json

/-! ## Strings -/

theorem exists_hexValue? {b : UInt8} (hb : IsHexDigit b) : ∃ value, hexValue? b = some value := by
  unfold hexValue?
  split
  next => exact ⟨_, rfl⟩
  next hdigit =>
    rcases hb with hb | hsmall | hcapital
    · exact absurd (Text.isDigit_iff.mpr hb) hdigit
    · exact ⟨_, if_pos hsmall⟩
    · split <;> exact ⟨_, rfl⟩

/-- The code unit of four hexadecimal digits is read whatever follows them. -/
theorem exists_readUnit {a b c d : UInt8} (ha : IsHexDigit a) (hb : IsHexDigit b)
    (hc : IsHexDigit c) (hd : IsHexDigit d) :
    ∃ unit, ∀ rest, readUnit (a :: b :: c :: d :: rest) = .ok (unit, rest) := by
  obtain ⟨a', ha⟩ := exists_hexValue? ha
  obtain ⟨b', hb⟩ := exists_hexValue? hb
  obtain ⟨c', hc⟩ := exists_hexValue? hc
  obtain ⟨d', hd⟩ := exists_hexValue? hd
  exact ⟨((a' * 16 + b') * 16 + c') * 16 + d', fun rest => by simp only [readUnit, ha, hb, hc, hd]⟩

theorem isSome_shortEscape? : ∀ b ∈ escapeLetters, (shortEscape? b).isSome = true :=
  List.all_eq_true.mp (by decide)

theorem skipString_plain {b : UInt8} (hb : IsPlain b) (rest : List UInt8) :
    skipString (b :: rest) = skipString rest := by
  obtain ⟨hquote, hbackslash, hcontrol⟩ := hb
  rw [skipString, if_neg hquote, if_neg hbackslash, if_neg hcontrol]

theorem skipString_escape {s after : List UInt8} (hescape : skipEscape s = .ok after) :
    skipString (byte '\\' :: s) = skipString after := by
  rw [skipString, if_neg (by decide), if_pos rfl]
  split
  next herror => cases hescape.symm.trans herror
  next hok => cases hescape.symm.trans hok; rfl

theorem skipEscape_letter {b : UInt8} (hb : b ∈ escapeLetters) (rest : List UInt8) :
    skipEscape (b :: rest) = .ok rest :=
  if_pos (isSome_shortEscape? b hb)

theorem skipEscape_unit {a b c d : UInt8} (ha : IsHexDigit a) (hb : IsHexDigit b)
    (hc : IsHexDigit c) (hd : IsHexDigit d) (rest : List UInt8) :
    skipEscape (byte 'u' :: a :: b :: c :: d :: rest) = .ok rest := by
  obtain ⟨unit, hunit⟩ := exists_readUnit ha hb hc hd
  have hshort : (shortEscape? (byte 'u')).isSome = false := by decide
  simp only [skipEscape, hshort, Bool.false_eq_true, if_false, if_true, hunit]

theorem skipString_body {body : List UInt8} (hbody : IsBody body) (rest : List UInt8) :
    skipString (body ++ byte '"' :: rest) = .ok rest := by
  induction hbody with
  | nil => rw [List.nil_append, skipString, if_pos rfl]
  | plain hb _ ih => exact (skipString_plain hb _).trans ih
  | letter hb _ ih => exact (skipString_escape (skipEscape_letter hb _)).trans ih
  | unit ha hb hc hd _ ih => exact (skipString_escape (skipEscape_unit ha hb hc hd _)).trans ih

/-! ## Numbers -/

theorem span_isDigits {ds rest : List UInt8} (hds : IsDigits ds)
    (hrest : ∀ b more, rest = b :: more → Text.isDigit b = false) :
    (ds ++ rest).takeWhile Text.isDigit = ds ∧ (ds ++ rest).dropWhile Text.isDigit = rest :=
  Text.span_append (fun b hb => Text.isDigit_iff.mpr (hds.2 b hb)) hrest

theorem EndsValue.not_isDigit {rest : List UInt8} (hrest : EndsValue rest) (b : UInt8)
    (more : List UInt8) (heq : rest = b :: more) : Text.isDigit b = false := by
  subst heq
  exact hrest.head.1

/-- What follows the digits before the point continues with no digit. -/
theorem not_isDigit_afterWhole {fraction exponent rest : List UInt8}
    (hfraction : IsFraction fraction) (hexponent : IsExponent exponent) (hrest : EndsValue rest)
    (b : UInt8) (more : List UInt8)
    (heq : fraction ++ (exponent ++ rest) = b :: more) : Text.isDigit b = false := by
  cases hfraction with
  | none =>
      cases hexponent with
      | none => exact hrest.not_isDigit b more heq
      | mark hb _ _ =>
          obtain ⟨rfl, -⟩ := List.cons.inj heq
          rcases hb with rfl | rfl <;> decide
  | point _ =>
      obtain ⟨rfl, -⟩ := List.cons.inj heq
      decide

theorem not_isDigit_afterPoint {exponent rest : List UInt8} (hexponent : IsExponent exponent)
    (hrest : EndsValue rest) (b : UInt8) (more : List UInt8)
    (heq : exponent ++ rest = b :: more) : Text.isDigit b = false :=
  not_isDigit_afterWhole .none hexponent hrest b more heq

/-- A sign is passed over where there is one. -/
theorem skipSign_append {sign ds rest : List UInt8}
    (hsign : sign = [] ∨ sign = [byte '+'] ∨ sign = [byte '-']) (hds : IsDigits ds) :
    skipSign (sign ++ (ds ++ rest)) = ds ++ rest := by
  rcases hsign with rfl | rfl | rfl
  · obtain ⟨hne, hdigits⟩ := hds
    cases ds with
    | nil => exact absurd rfl hne
    | cons b more =>
        have hb := hdigits b List.mem_cons_self
        have hsigned : ¬ (b = byte '-' ∨ b = byte '+') := by
          rintro (rfl | rfl) <;> revert hb <;> unfold Text.IsDigit <;> decide
        exact if_neg hsigned
  · rfl
  · rfl

theorem skipExponent_digits {sign ds rest : List UInt8}
    (hsign : sign = [] ∨ sign = [byte '+'] ∨ sign = [byte '-']) (hds : IsDigits ds)
    (hrest : EndsValue rest) : skipExponent (sign ++ (ds ++ rest)) = .ok rest := by
  obtain ⟨htake, hdrop⟩ := span_isDigits hds hrest.not_isDigit
  rw [skipExponent, skipSign_append hsign hds, htake, if_neg hds.1, hdrop]

theorem skipNumber_unsigned {text rest : List UInt8} (htext : IsUnsigned text)
    (hrest : EndsValue rest) : skipNumber (text ++ rest) = .ok rest := by
  obtain @⟨whole, fraction, exponent, ⟨hdigits, hzero⟩, hfraction, hexponent⟩ := htext
  obtain ⟨htake, hdrop⟩ :=
    span_isDigits hdigits (not_isDigit_afterWhole hfraction hexponent hrest)
  rw [List.append_assoc, List.append_assoc]
  unfold skipNumber
  simp only [htake, hdrop]
  cases whole with
  | nil => exact absurd rfl hdigits.1
  | cons first more =>
      have hkept : ¬ (first = byte '0' ∧ more ≠ []) := by
        rintro ⟨rfl, hne⟩
        exact hne (hzero more rfl)
      simp only [if_neg hkept]
      cases hfraction with
      | none =>
          cases hexponent with
          | none =>
              cases rest with
              | nil => rfl
              | cons b after =>
                  obtain ⟨-, hpoint, hlower, hupper⟩ := hrest.head
                  simp [hpoint, hlower, hupper]
          | mark hb hsign hds =>
              have hpoint : _ ≠ byte '.' := fun heq => by
                rcases hb with hb | hb <;> cases hb.symm.trans heq
              simp [hpoint, hb, skipExponent_digits hsign hds hrest]
      | point hds =>
          obtain ⟨htake', hdrop'⟩ := span_isDigits hds (not_isDigit_afterPoint hexponent hrest)
          simp only [List.cons_append, if_true, htake', hdrop', if_neg hds.1]
          cases hexponent with
          | none =>
              cases rest with
              | nil => rfl
              | cons b after =>
                  obtain ⟨-, -, hlower, hupper⟩ := hrest.head
                  simp [hlower, hupper]
          | mark hb hsign hds => simp [hb, skipExponent_digits hsign hds hrest]

/-! ## Values without parts -/

theorem readWord_append (letters rest : List UInt8) :
    readWord letters (letters ++ rest) = .ok rest := by
  induction letters with
  | nil => rw [List.nil_append, readWord]
  | cons letter letters ih =>
      rw [List.cons_append, readWord, if_pos rfl]
      exact ih

theorem skipScalar_number {b : UInt8} {more rest : List UInt8} (htext : IsNumber (b :: more))
    (hrest : EndsValue rest) : skipScalar b (more ++ rest) = .ok rest := by
  cases htext with
  | unsigned htext =>
      obtain ⟨b', more', heq, hb⟩ := htext.exists_cons
      obtain ⟨rfl, rfl⟩ := List.cons.inj heq
      have hletters : b ≠ byte 'n' ∧ b ≠ byte 't' ∧ b ≠ byte 'f' ∧ b ≠ byte '-' := by
        refine ⟨?_, ?_, ?_, ?_⟩ <;> rintro rfl <;> revert hb <;> unfold Text.IsDigit <;> decide
      obtain ⟨hn, ht, hf, hminus⟩ := hletters
      rw [skipScalar, if_neg hn, if_neg ht, if_neg hf, if_neg hminus,
        if_pos (Text.isDigit_iff.mpr hb)]
      exact skipNumber_unsigned htext hrest
  | negative htext => exact skipNumber_unsigned htext hrest

/-! ## Arrays and objects -/

section Places

variable {frames outer : List Frame} {frame : Frame} {ws rest : List UInt8} {b : UInt8}

theorem skipFrom_value (hws : IsBlank ws) (hb : isSpace b = false) :
    skipFrom .value frames (ws ++ b :: rest) =
      if b = byte '[' then skipFrom .first (.array :: frames) rest
      else if b = byte '\x7b' then skipFrom .first (.object :: frames) rest
      else
        match skipScalar b rest with
        | .error e => .error e
        | .ok after => skipFrom .after frames after := by
  have hskip := skipSpace_append hws hb rest
  rw [skipFrom]
  split
  next hnil => cases hskip.symm.trans hnil
  next hcons =>
    cases hskip.symm.trans hcons
    split
    next => rfl
    next =>
      split
      next => rfl
      next => split <;> simp_all

theorem skipFrom_scalar (hws : IsBlank ws) (hb : isSpace b = false) (harray : b ≠ byte '[')
    (hobject : b ≠ byte '\x7b') {after : List UInt8} (hscalar : skipScalar b rest = .ok after) :
    skipFrom .value frames (ws ++ b :: rest) = skipFrom .after frames after := by
  rw [skipFrom_value hws hb, if_neg harray, if_neg hobject, hscalar]

theorem skipFrom_first (hws : IsBlank ws) (hb : isSpace b = false) :
    skipFrom .first (frame :: outer) (ws ++ b :: rest) =
      if b = frame.closing then skipFrom .after outer rest
      else skipFrom .next (frame :: outer) (ws ++ b :: rest) := by
  have hskip := skipSpace_append hws hb rest
  rw [skipFrom]
  split
  next hnil => cases hskip.symm.trans hnil
  next hcons => cases hskip.symm.trans hcons; rfl

theorem skipFrom_after (hws : IsBlank ws) (hb : isSpace b = false) :
    skipFrom .after (frame :: outer) (ws ++ b :: rest) =
      if b = byte ',' then skipFrom .next (frame :: outer) rest
      else if b = frame.closing then skipFrom .after outer rest
      else .error (.malformed frame.expectedEnd) := by
  have hskip := skipSpace_append hws hb rest
  rw [skipFrom]
  split
  next hnil => cases hskip.symm.trans hnil
  next hcons => cases hskip.symm.trans hcons; rfl

theorem skipFrom_nextMember {s after : List UInt8} (hname : skipName s = .ok after) :
    skipFrom .next (.object :: outer) s = skipFrom .value (.object :: outer) after := by
  conv_lhs => rw [skipFrom]
  split
  next herror => cases hname.symm.trans herror
  next hok => cases hname.symm.trans hok; rfl

end Places

theorem readColon_append {ws : List UInt8} (hws : IsBlank ws) (rest : List UInt8) :
    readColon (ws ++ byte ':' :: rest) = .ok rest := by
  rw [readColon, skipSpace_append hws (by decide)]
  exact if_pos rfl

theorem skipName_append {name ws ws' : List UInt8} (hname : IsBody name) (hws : IsBlank ws)
    (hws' : IsBlank ws') (rest : List UInt8) :
    skipName (ws ++ byte '"' :: (name ++ byte '"' :: (ws' ++ byte ':' :: rest))) = .ok rest := by
  rw [skipName, skipSpace_append hws (by decide)]
  simp only [if_true, skipString_body hname, readColon_append hws']

/-- What is spelled is passed over, from the place where it starts. -/
def IsPassedOver : Form → List UInt8 → Prop
  | .value _, v => ∀ ws frames rest, IsBlank ws → EndsValue rest →
      skipFrom .value frames (ws ++ (v ++ rest)) = skipFrom .after frames rest
  | .member _ _, m => ∀ ws frames rest, IsBlank ws → EndsValue rest →
      skipFrom .next (.object :: frames) (ws ++ (m ++ rest)) =
        skipFrom .after (.object :: frames) rest
  | .elements _, more => ∀ frames rest,
      skipFrom .after (.array :: frames) (more ++ rest) = skipFrom .after frames rest
  | .members _, more => ∀ frames rest,
      skipFrom .after (.object :: frames) (more ++ rest) = skipFrom .after frames rest

theorem Spelling.isPassedOver {form : Form} {text : List UInt8} (htext : Spelling form text) :
    IsPassedOver form text := by
  induction htext with
  | null | true | false =>
      intro ws frames rest hws _
      exact skipFrom_scalar hws (by decide) (by decide) (by decide) (readWord_append _ rest)
  | number htext =>
      intro ws frames rest hws hrest
      obtain ⟨b, more, rfl, hb⟩ := (Spelling.number htext).exists_cons
      exact skipFrom_scalar hws (Tree.OpensWith.isSpace hb) (ne_of_opensNumber hb (by decide))
        (ne_of_opensNumber hb (by decide)) (skipScalar_number htext hrest)
  | @string body hbody =>
      intro ws frames rest hws _
      have hskip := skipString_body hbody rest
      rw [List.append_cons] at hskip
      exact skipFrom_scalar hws (by decide) (by decide) (by decide) hskip
  | emptyArray hws =>
      intro ws frames rest hws' _
      rw [List.cons_append, skipFrom_value hws' (by decide), if_pos rfl, List.append_assoc]
      exact (skipFrom_first hws (by decide)).trans (if_pos rfl)
  | array hws hv hmore ihv ihmore =>
      intro ws frames rest hws' _
      obtain ⟨b, rest', rfl, hb⟩ := hv.exists_cons
      have hvalue := ihv _ (.array :: frames) _ hws (hmore.endsValue_elements rest)
      have hopen : b ≠ Frame.array.closing := hb.ne_closing
      rw [List.cons_append, skipFrom_value hws' (by decide), if_pos rfl, List.append_assoc,
        List.append_assoc]
      rw [List.cons_append] at hvalue ⊢
      rw [skipFrom_first hws hb.isSpace, if_neg hopen, skipFrom, hvalue]
      exact ihmore frames rest
  | endOfArray hws =>
      intro frames rest
      rw [List.append_assoc]
      exact (skipFrom_after hws (by decide)).trans (if_neg (by decide))
  | element hws hws' hv hmore ihv ihmore =>
      intro frames rest
      rw [List.append_assoc, List.cons_append, List.append_assoc, List.append_assoc,
        skipFrom_after hws (by decide), if_pos rfl, skipFrom,
        ihv _ _ _ hws' (hmore.endsValue_elements rest)]
      exact ihmore frames rest
  | emptyObject hws =>
      intro ws frames rest hws' _
      rw [List.cons_append, skipFrom_value hws' (by decide), if_neg (by decide), if_pos rfl,
        List.append_assoc]
      exact (skipFrom_first hws (by decide)).trans (if_pos rfl)
  | object hws hm hmore ihm ihmore =>
      intro ws frames rest hws' _
      rw [List.cons_append, skipFrom_value hws' (by decide), if_neg (by decide), if_pos rfl,
        List.append_assoc, List.append_assoc]
      have hmember := ihm _ frames _ hws (hmore.endsValue_members rest)
      obtain ⟨rest', rfl⟩ := hm.exists_quote
      rw [List.cons_append] at hmember ⊢
      rw [skipFrom_first hws (by decide), if_neg (by decide), hmember]
      exact ihmore frames rest
  | endOfObject hws =>
      intro frames rest
      rw [List.append_assoc]
      exact (skipFrom_after hws (by decide)).trans (if_neg (by decide))
  | nextMember hws hws' hm hmore ihm ihmore =>
      intro frames rest
      rw [List.append_assoc, List.cons_append, List.append_assoc, List.append_assoc,
        skipFrom_after hws (by decide), if_pos rfl,
        ihm _ _ _ hws' (hmore.endsValue_members rest)]
      exact ihmore frames rest
  | @member name tree ws ws' v hname hws hws' hv ihv =>
      intro ws frames rest hws'' hrest
      have hskip := skipName_append hname hws'' hws (ws' ++ (v ++ rest))
      simp only [List.cons_append, List.append_assoc] at hskip ⊢
      rw [skipFrom_nextMember hskip]
      exact ihv ws' (.object :: frames) rest hws' hrest

/-- Every value is passed over, whatever it is. -/
theorem Reader.run_skip {tree : Tree} {ws v rest : List UInt8} (hws : IsBlank ws)
    (hv : Spelling (.value tree) v) (hrest : EndsValue rest) :
    Reader.skip.run (ws ++ (v ++ rest)) = .ok ((), rest) := by
  have hskip := hv.isPassedOver ws [] rest hws hrest
  have hend : skipFrom .after [] rest = .ok rest := by rw [skipFrom]
  simp only [Reader.skip, hskip, hend]

end Entitlement.Json
