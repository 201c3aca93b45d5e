import Entitlement.Key.Envelope
import Entitlement.Proofs.Base64
import Entitlement.Proofs.Json.Members
import Entitlement.Proofs.Text.Blank

/-! # Envelopes survive being written and taken apart

The key of an envelope is taken apart into the very version, payload and signature it was made of.
The two alphabets, the strings of the document and the blanks around the key never interact: a
written form holds no blank, and a string is read back whatever it holds.
-/

namespace Entitlement.Key

open Json (Reader Member)
open Json.Reader (Given)

namespace Envelope

/-- The members of an envelope document. -/
def members (envelope : Envelope) : List Member :=
  [("payload", Json.string (Base64.Alphabet.standard.encode envelope.payload)),
    ("sig", Json.string (Base64.Alphabet.standard.encode envelope.signature)),
    ("v", Json.nat envelope.version.toNat)]

/-- What has been read of an envelope when some of its members have been given. -/
def draft (envelope : Envelope) (given : Given) : EnvelopeDraft where
  version := if given "v" then some envelope.version else none
  payload :=
    if given "payload" then some (Base64.Alphabet.standard.encode envelope.payload) else none
  signature :=
    if given "sig" then some (Base64.Alphabet.standard.encode envelope.signature) else none

/-- Every member adds its value to a draft, whichever members have been given before it. -/
theorem member_draft (envelope : Envelope) :
    ∀ m ∈ envelope.members, ∀ given : Given, given m.1 = false →
      ∃ reader : Reader EnvelopeDraft, record.member (envelope.draft given) m.1 = .ok reader ∧
        reader.Takes m.2 (envelope.draft (given.add m.1)) := by
  intro m hm given hnew
  simp only [members, List.mem_cons, List.not_mem_nil, or_false] at hm
  rcases hm with rfl | rfl | rfl
  · exact Json.Record.exists_reader rfl (by simp [draft, hnew]) (Reader.takes_string _)
      (by simp [draft, Given.add])
  · exact Json.Record.exists_reader rfl (by simp [draft, hnew]) (Reader.takes_string _)
      (by simp [draft, Given.add])
  · exact Json.Record.exists_reader rfl (by simp [draft, hnew])
      (Reader.takes_word32 envelope.version) (by simp [draft, Given.add])

/-- The names of the members of an envelope document. -/
def memberNames : List String := ["payload", "sig", "v"]

theorem draft_complete (envelope : Envelope) {given : Given}
    (hall : ∀ name ∈ memberNames, given name = true) :
    record.complete (envelope.draft given) = .ok (envelope.draft given) ∧
      parts (envelope.draft given) =
        .ok (envelope.version, Base64.Alphabet.standard.encode envelope.payload,
          Base64.Alphabet.standard.encode envelope.signature) := by
  simp only [memberNames, List.forall_mem_cons, List.not_mem_nil, false_implies, implies_true,
    and_true] at hall
  obtain ⟨hpayload, hsignature, hversion⟩ := hall
  constructor
  · simp [Json.Record.complete, record, draft, hpayload, hsignature, hversion]
  · simp [parts, draft, hpayload, hsignature, hversion]

/-- An envelope document is read to its members, in whatever order they are written. -/
theorem read_object (envelope : Envelope) {ms : List Member} (hms : ms.Perm envelope.members) :
    reader.read (Text.bytes (Json.object ms)) =
      .ok (envelope.version, Base64.Alphabet.standard.encode envelope.payload,
        Base64.Alphabet.standard.encode envelope.signature) :=
  (Json.Record.takes_perm rfl envelope.member_draft (show memberNames.Nodup by decide)
    (fun _ hall => envelope.draft_complete hall) hms).read

theorem isBlank_encode (envelope : Envelope) :
    ∀ c ∈ envelope.encode.toList, Text.isBlank c = false :=
  fun _ hc => Base64.Alphabet.urlSafe_isLawful.isBlank_of_mem_encode hc

/-- A key is taken apart into the envelope it was made of if its version is the only one there is,
whatever blanks stand around the key. -/
theorem decode_encode (envelope : Envelope) {before after : String}
    (hbefore : Text.IsBlankText before) (hafter : Text.IsBlankText after) :
    decode (before ++ envelope.encode ++ after) =
      if envelope.version = formatVersion then .ok envelope
      else .error (.form (.unsupportedVersion envelope.version)) := by
  have hdocument := Base64.Alphabet.urlSafe_isLawful.decode_encode (Text.bytes envelope.toJson)
  have hmembers := envelope.read_object (List.Perm.refl _)
  have hpayload := Base64.Alphabet.standard_isLawful.decode_encode envelope.payload
  have hsignature := Base64.Alphabet.standard_isLawful.decode_encode envelope.signature
  change Base64.Alphabet.urlSafe.decode envelope.encode = _ at hdocument
  change reader.read (Text.bytes envelope.toJson) = _ at hmembers
  rw [decode, Text.trim_append hbefore envelope.isBlank_encode hafter]
  simp only [hdocument, hmembers, hpayload, hsignature, Except.mapError, bind, Except.bind, pure,
    Except.pure]
  by_cases hversion : envelope.version = formatVersion
  · rw [if_neg (not_not.mpr hversion), if_pos hversion]
  · rw [if_pos hversion, if_neg hversion]
    rfl

end Envelope

end Entitlement.Key
