import Entitlement.Proofs.Key.Verify

/-! # Spellings of a key

Many texts can stand for one envelope: its document may list the members in another order, be an
array instead of an object or hold members that nobody knows, and blanks may stand around
everything. Each of these texts has a normal form, the key that would have been issued for the
envelope, and no verdict can tell a text from its normal form.
-/

namespace Entitlement.Key

open Calendar Grant Signature

/-! ## Opening keys -/

theorem openEnvelope_eq_ok_iff {key : String} {envelope : Envelope} :
    openEnvelope key = .ok envelope ↔ Envelope.Reads key envelope := by
  rw [openEnvelope, mapError_eq_ok_iff, Envelope.decode_eq_ok_iff]

theorem openEnvelope_encode (envelope : Envelope) {before after : String}
    (hbefore : Text.IsBlankText before) (hafter : Text.IsBlankText after) :
    openEnvelope (before ++ envelope.encode ++ after) =
      if envelope.version = formatVersion then .ok envelope
      else .error (.invalidFormat (.envelope (.unsupportedVersion envelope.version))) := by
  rw [openEnvelope, Envelope.decode_encode envelope hbefore hafter]
  split <;> rfl

/-- The members of an envelope document may come in any order. -/
theorem openEnvelope_perm {envelope : Envelope} {ms : List Json.Member}
    (hversion : envelope.version = formatVersion) (hms : ms.Perm envelope.members) :
    openEnvelope (Base64.Alphabet.urlSafe.encode (Text.bytes (Json.object ms))) = .ok envelope := by
  generalize hkey : Base64.Alphabet.urlSafe.encode (Text.bytes (Json.object ms)) = key
  have hblank : ∀ c ∈ key.toList, Text.isBlank c = false := by
    rw [← hkey]
    exact fun _ hc => Base64.Alphabet.urlSafe_isLawful.isBlank_of_mem_encode hc
  have htrim := Text.trim_append Text.isBlankText_empty hblank Text.isBlankText_empty
  rw [String.empty_append, String.append_empty] at htrim
  have hread := envelope.read_object hms
  rw [hversion] at hread
  rw [openEnvelope_eq_ok_iff]
  refine ⟨Text.bytes (Json.object ms), _, _, ?_, hread, ?_, ?_, hversion⟩
  · rw [htrim, ← hkey]
    exact Base64.Alphabet.urlSafe_isLawful.decode_encode _
  · exact Base64.Alphabet.standard_isLawful.decode_encode _
  · exact Base64.Alphabet.standard_isLawful.decode_encode _

theorem openEnvelope_of_trim_eq {key key' : String} (htrim : Text.trim key = Text.trim key') :
    openEnvelope key = openEnvelope key' := by
  rw [openEnvelope, openEnvelope, Envelope.decode, Envelope.decode, htrim]

/-- A verdict sees nothing of a key but its envelope. -/
theorem verify_congr {key key' : String} (hsame : openEnvelope key = openEnvelope key')
    (scheme : Scheme) (trusted : TrustSet) (now : Timestamp) :
    verify scheme trusted key now = verify scheme trusted key' now := by
  rw [verify, verify, hsame]

/-! ## Normal forms -/

/-- Blanks around the key of an envelope do not matter: it is taken apart into the payload and the
signature it was made of, or refused for its version. Whatever else can be taken apart stands for
the key of its envelope, which opens to the same envelope and is judged alike by everyone at any
time. -/
theorem openEnvelope_spelling :
    (∀ (version : UInt32) (payload signature : List UInt8) (before after : String),
      Text.IsBlankText before → Text.IsBlankText after →
        let key := before ++ Envelope.encode ⟨version, payload, signature⟩ ++ after
        (version = 1 → openEnvelope key = .ok ⟨1, payload, signature⟩) ∧
          (version ≠ 1 → openEnvelope key =
            .error (.invalidFormat (.envelope (.unsupportedVersion version))))) ∧
    ∀ (key : String) (envelope : Envelope), openEnvelope key = .ok envelope →
      openEnvelope envelope.encode = .ok envelope ∧
        ∀ (scheme : Scheme) (trusted : TrustSet) (now : Timestamp),
          verify scheme trusted key now = verify scheme trusted envelope.encode now := by
  constructor
  · intro version payload signature before after hbefore hafter key
    have hopen := openEnvelope_encode ⟨version, payload, signature⟩ hbefore hafter
    constructor
    · rintro rfl
      exact hopen.trans (if_pos rfl)
    · intro hversion
      exact hopen.trans (if_neg hversion)
  · intro key envelope hopen
    obtain ⟨_, _, _, -, -, -, -, hversion⟩ := openEnvelope_eq_ok_iff.mp hopen
    have hnormal : openEnvelope envelope.encode = .ok envelope :=
      openEnvelope_eq_ok_iff.mpr (Envelope.reads_encode_self envelope hversion)
    exact ⟨hnormal, verify_congr (hopen.trans hnormal.symm)⟩

/-- An envelope around a document without members. -/
def emptyEnvelope : Envelope := ⟨1, [0x7B, 0x7D], []⟩

/-- A key whose document is an array, with blanks in it and around it. -/
def arrayKey : String :=
  " " ++ Base64.Alphabet.urlSafe.encode (Text.bytes " [1, \"e30=\",\t\"\"]\n") ++ "\u3000"

/-- A key whose document has its members in reverse order. -/
def reversedKey : String :=
  Base64.Alphabet.urlSafe.encode (Text.bytes (Json.object emptyEnvelope.members.reverse))

/-- Three spellings of one key, and the key of an envelope of a version that does not exist. -/
theorem openEnvelope_spelling_empty :
    arrayKey ≠ emptyEnvelope.encode ∧ reversedKey ≠ emptyEnvelope.encode ∧
      (∀ (scheme : Scheme) (trusted : TrustSet) (now : Timestamp),
        verify scheme trusted arrayKey now = verify scheme trusted emptyEnvelope.encode now ∧
          verify scheme trusted reversedKey now =
            verify scheme trusted emptyEnvelope.encode now) ∧
      openEnvelope ("\u2003" ++ emptyEnvelope.encode ++ "\r\n") = .ok emptyEnvelope ∧
      openEnvelope ("" ++ Envelope.encode ⟨2, [0x7B, 0x7D], []⟩ ++ "") =
        .error (.invalidFormat (.envelope (.unsupportedVersion 2))) := by
  obtain ⟨hencode, hnormal⟩ := openEnvelope_spelling
  have harray : openEnvelope arrayKey = .ok emptyEnvelope := by decide +kernel
  have hreversed : openEnvelope reversedKey = .ok emptyEnvelope :=
    openEnvelope_perm rfl (List.reverse_perm _)
  refine ⟨by decide, by decide, ?_, ?_, ?_⟩
  · intro scheme trusted now
    exact ⟨(hnormal _ _ harray).2 scheme trusted now, (hnormal _ _ hreversed).2 scheme trusted now⟩
  · exact (hencode 1 _ _ "\u2003" "\r\n" (by decide) (by decide)).1 rfl
  · exact (hencode 2 _ _ "" "" (by decide) (by decide)).2 (by decide)

end Entitlement.Key
