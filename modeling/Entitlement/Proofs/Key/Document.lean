import Entitlement.Proofs.Json.Results
import Entitlement.Proofs.Key.Issue
import Entitlement.Proofs.Plan.Limits

/-! # Claims that were read from a document

Whatever document claims were read from, in whatever form and spelling, they can be written again.
Their plain document is a normal form: it is read to the very same claims. Signing refuses them for
an inverted window or for a limit that is too large, and for nothing else.
-/

namespace Entitlement.Grant

open Calendar
open Json (Reader)

/-- The ends of the window that have been read have years without a sign. -/
def Draft.HasYears (draft : Draft) : Prop :=
  (∀ t ∈ draft.issuedAt, 0 ≤ t.date.year) ∧ ∀ t ∈ draft.expiresAt, 0 ≤ t.date.year

namespace Claims

theorem timestampReader_yields : timestampReader.Yields fun t => 0 ≤ t.date.year := by
  refine (Reader.yields_true _).check fun text t _ ht => ?_
  cases hparse : Rfc3339.parse text with
  | error e => simp [hparse, Except.mapError] at ht
  | ok parsed =>
      simp only [hparse, Except.mapError, Except.ok.injEq] at ht
      exact ht ▸ Rfc3339.nonneg_year_of_parse hparse

/-- A field that is none of the ends of the window keeps them. -/
theorem map_yields_hasYears {α : Type} (reader : Reader α) {set : α → Draft} {draft : Draft}
    (hdraft : draft.HasYears) (hissued : ∀ value, (set value).issuedAt = draft.issuedAt)
    (hexpires : ∀ value, (set value).expiresAt = draft.expiresAt) :
    (reader.map set).Yields Draft.HasYears := by
  refine (Reader.yields_true reader).map fun value _ => ?_
  rw [Draft.HasYears, hissued, hexpires]
  exact hdraft

theorem record_yields : record.reader.Yields Draft.HasYears := by
  apply Json.Record.yields
  · constructor
    · rintro t ⟨⟩
    · rintro t ⟨⟩
  · intro field hfield draft hdraft
    simp only [record, List.mem_cons, List.not_mem_nil, or_false] at hfield
    -- One case for each member, in the order of the record.
    rcases hfield with rfl | rfl | rfl | rfl | rfl | rfl | rfl | rfl | rfl | rfl | rfl
    · exact map_yields_hasYears _ hdraft (fun _ => rfl) fun _ => rfl
    · exact map_yields_hasYears _ hdraft (fun _ => rfl) fun _ => rfl
    · exact map_yields_hasYears _ hdraft (fun _ => rfl) fun _ => rfl
    · exact map_yields_hasYears _ hdraft (fun _ => rfl) fun _ => rfl
    · exact map_yields_hasYears _ hdraft (fun _ => rfl) fun _ => rfl
    · exact map_yields_hasYears _ hdraft (fun _ => rfl) fun _ => rfl
    · refine timestampReader_yields.map fun t ht => ⟨?_, hdraft.2⟩
      rintro _ ⟨⟩
      exact ht
    · refine timestampReader_yields.map fun t ht => ⟨hdraft.1, ?_⟩
      rintro _ ⟨⟩
      exact ht
    · exact map_yields_hasYears _ hdraft (fun _ => rfl) fun _ => rfl
    · exact map_yields_hasYears _ hdraft (fun _ => rfl) fun _ => rfl
    · exact map_yields_hasYears _ hdraft (fun _ => rfl) fun _ => rfl

/-- Both ends of the window have a written form. -/
def IsWritable (claims : Claims) : Prop :=
  (∃ text, Rfc3339.format? claims.issuedAt = some text) ∧
    ∃ text, Rfc3339.format? claims.expiresAt = some text

theorem required_eq_ok {α : Type} {name : String} {given : Option α} {value : α}
    (hvalue : required name given = .ok value) : given = some value := by
  cases given with
  | none => cases hvalue
  | some other =>
      cases hvalue
      rfl

theorem isWritable_of_ofDraft {draft : Draft} {claims : Claims} (hdraft : draft.HasYears)
    (hclaims : ofDraft draft = .ok claims) : claims.IsWritable := by
  simp only [ofDraft, bind_eq_ok_iff] at hclaims
  obtain ⟨_, -, _, -, _, -, _, -, _, -, _, -, issuedAt, hissued, expiresAt, hexpires, hclaims⟩ :=
    hclaims
  cases hclaims
  exact ⟨Rfc3339.exists_format_iff.mpr (hdraft.1 issuedAt (required_eq_ok hissued)),
    Rfc3339.exists_format_iff.mpr (hdraft.2 expiresAt (required_eq_ok hexpires))⟩

/-- Whatever document claims are read from, the ends of their window can be written. -/
theorem isWritable_of_ofBytes {document : List UInt8} {claims : Claims}
    (hread : ofBytes document = .ok claims) : claims.IsWritable :=
  (record_yields.check fun _ _ => isWritable_of_ofDraft).read hread

theorem IsWritable.exists_write {claims : Claims} (hwritable : claims.IsWritable)
    (arrange : Arrangement) : ∃ text, claims.write? arrange = some text := by
  obtain ⟨⟨issuedAt, hissued⟩, expiresAt, hexpires⟩ := hwritable
  exact ⟨_, write?_eq_some_iff.mpr ⟨issuedAt, expiresAt, hissued, hexpires, rfl⟩⟩

end Claims

end Entitlement.Grant

namespace Entitlement.Key

open Calendar Grant Plan Signature

/-! ## Signing -/

section Signing

variable {claims : Claims}

theorem hasValidWindow_iff :
    claims.hasValidWindow = true ↔ claims.issuedAt.instant ≤ claims.expiresAt.instant :=
  decide_eq_true_iff

theorem canonicalPayload_of_inverted
    (hinverted : claims.expiresAt.instant < claims.issuedAt.instant) :
    canonicalPayload claims = .error (.invalidWindow claims.issuedAt claims.expiresAt) := by
  have hwindow : ¬ claims.hasValidWindow = true := by
    rw [hasValidWindow_iff]
    omega
  rw [canonicalPayload, if_pos hwindow]

theorem canonicalPayload_of_unencodable {name : String} {ceiling : UInt64}
    (hwindow : claims.issuedAt.instant ≤ claims.expiresAt.instant)
    (hfirst : claims.limits.firstUnencodable? = some (name, ceiling)) :
    canonicalPayload claims = .error (.limitOutOfRange name ceiling) := by
  rw [canonicalPayload, if_neg (not_not_intro (hasValidWindow_iff.mpr hwindow)), hfirst]

theorem exists_canonicalPayload (hwritable : claims.IsWritable)
    (hwindow : claims.issuedAt.instant ≤ claims.expiresAt.instant)
    (hlimits : claims.limits.IsEncodable) : ∃ payload, canonicalPayload claims = .ok payload := by
  obtain ⟨document, hdocument⟩ := hwritable.exists_write Json.canonicalOrder
  exact ⟨_, canonicalPayload_eq_ok_iff.mpr ⟨hasValidWindow_iff.mpr hwindow,
    Limits.firstUnencodable?_eq_none_iff.mpr hlimits, document, hdocument, rfl⟩⟩

/-- A key is issued exactly for a payload. -/
theorem issue_eq_map (scheme : Scheme) (secret : SecretKey) (claims : Claims) :
    issue scheme secret claims = (canonicalPayload claims).map fun payload =>
      (signedEnvelope scheme secret payload).encode := by
  unfold issue sign
  cases canonicalPayload claims <;> rfl

end Signing

/-- Claims that were read from a document are signed exactly if their window is not inverted and
every limit lies below 2^53. An inverted window is reported whatever the limits are; otherwise the
first limit that is too large is reported by the bytes of its name, with its value. It never happens
that an end of the window cannot be written: whatever is read as a timestamp has a written form. A
key is issued for a payload and refused for the same reason as the payload. -/
theorem canonicalPayload_of_document {document : List UInt8} {claims : Claims}
    (hread : Claims.ofBytes document = .ok claims) :
    ((∃ payload, canonicalPayload claims = .ok payload) ↔
      claims.issuedAt.instant ≤ claims.expiresAt.instant ∧
        ∀ entry ∈ claims.limits.entries, entry.2.toNat ≤ 2 ^ 53 - 1) ∧
    (claims.expiresAt.instant < claims.issuedAt.instant →
      canonicalPayload claims = .error (.invalidWindow claims.issuedAt claims.expiresAt)) ∧
    (claims.issuedAt.instant ≤ claims.expiresAt.instant →
      (∃ entry ∈ claims.limits.entries, 2 ^ 53 - 1 < entry.2.toNat) →
        ∃ name ceiling, canonicalPayload claims = .error (.limitOutOfRange name ceiling) ∧
          (name, ceiling) ∈ claims.limits.entries ∧ 2 ^ 53 - 1 < ceiling.toNat ∧
          ∀ entry ∈ claims.limits.entries, 2 ^ 53 - 1 < entry.2.toNat →
            entry = (name, ceiling) ∨ Text.bytes name < Text.bytes entry.1) ∧
    canonicalPayload claims ≠ .error .unwritable ∧
    (∀ text t, Rfc3339.parse text = .ok t →
      ∃ written, Rfc3339.format? t = some written ∧ Rfc3339.parse written = .ok t) ∧
    ∀ (scheme : Scheme) (secret : SecretKey),
      issue scheme secret claims = (canonicalPayload claims).map fun payload =>
        Envelope.encode ⟨1, payload, scheme.sign secret payload⟩ := by
  have hwritable := Claims.isWritable_of_ofBytes hread
  have hlarge : claims.issuedAt.instant ≤ claims.expiresAt.instant →
      (∃ entry ∈ claims.limits.entries, 2 ^ 53 - 1 < entry.2.toNat) →
        ∃ name ceiling, claims.limits.firstUnencodable? = some (name, ceiling) ∧
          canonicalPayload claims = .error (.limitOutOfRange name ceiling) := by
    rintro hwindow ⟨entry, hentry, hexceeds⟩
    cases hfirst : claims.limits.firstUnencodable? with
    | none =>
        have hfits := Limits.firstUnencodable?_eq_none_iff.mp hfirst entry hentry
        omega
    | some found => exact ⟨_, _, rfl, canonicalPayload_of_unencodable hwindow hfirst⟩
  refine ⟨⟨?_, fun ⟨hwindow, hlimits⟩ => exists_canonicalPayload hwritable hwindow hlimits⟩,
    canonicalPayload_of_inverted, ?_, ?_, fun _ _ => Rfc3339.exists_format_of_parse,
    fun scheme secret => issue_eq_map scheme secret claims⟩
  · rintro ⟨payload, hpayload⟩
    obtain ⟨hwindow, hlimits, -⟩ := canonicalPayload_eq_ok_iff.mp hpayload
    exact ⟨hasValidWindow_iff.mp hwindow, Limits.firstUnencodable?_eq_none_iff.mp hlimits⟩
  · intro hwindow hexceeds
    obtain ⟨name, ceiling, hfirst, herror⟩ := hlarge hwindow hexceeds
    exact ⟨name, ceiling, herror, Limits.firstUnencodable?_eq_some hfirst⟩
  · -- Each of the three cases has a result of its own.
    rcases Int.lt_or_le claims.expiresAt.instant claims.issuedAt.instant with hinverted | hwindow
    · rw [canonicalPayload_of_inverted hinverted]
      exact fun herror => by cases herror
    · by_cases hlimits : claims.limits.IsEncodable
      · obtain ⟨payload, hpayload⟩ := exists_canonicalPayload hwritable hwindow hlimits
        rw [hpayload]
        exact fun herror => by cases herror
      · have hexceeds : ∃ entry ∈ claims.limits.entries, 2 ^ 53 - 1 < entry.2.toNat := by
          simpa [Limits.IsEncodable] using hlimits
        obtain ⟨name, ceiling, -, herror⟩ := hlarge hwindow hexceeds
        rw [herror]
        exact fun herror => by cases herror

/-- A document in the form of an array, with blanks, escapes, a leap second, more fraction digits
than count, names that are given twice and limits that no signed license can carry. The metadata are
left out. -/
def arrayDocument : List UInt8 :=
  Text.bytes <|
    " [ \"\\u0061\\ud834\\udd1e\", \"c\",\"n\",\"\\/\" ,\"trial\",\x7b\"pro\" :null\x7d,\n" ++
      "\"2016-12-31T23:59:60+00:00\",\"2027-02-01t09:30:15.5000000009-05:30\"," ++
      "[\"b\",\"a\",\"b\"]," ++
      "\x7b\"z\":9007199254740992,\"m\":1,\"m\":18446744073709551615\x7d ] "

/-- The claims of the document. -/
def arrayClaims : Claims where
  id := "a𝄞"
  customerId := "c"
  customerName := "n"
  email := "/"
  licenseType := .trial
  tier := .pro
  issuedAt :=
    { License.endOfTime with
      date := ⟨2016, 12, 31, by decide, License.endOfTime.date.month_range, by decide⟩
      time :=
        { License.endOfTime.time with
          nanosecond := 999999999
          nanosecond_range := by decide } }
  expiresAt := { sampleClaims.expiresAt with offset := sampleClaims.issuedAt.offset }
  features := ((∅ : NameSet).insert "a").insert "b"
  limits := (Limits.empty.set "m" 18446744073709551615).set "z" 9007199254740992
  metadata := ∅

theorem ofBytes_arrayDocument : Claims.ofBytes arrayDocument = .ok arrayClaims := by
  decide +kernel

/-- Of the two limits of the document that are too large, the one that comes first is reported,
although it was written last. -/
theorem canonicalPayload_of_document_array :
    Claims.ofBytes arrayDocument = .ok arrayClaims ∧
      (∃ name ceiling, canonicalPayload arrayClaims = .error (.limitOutOfRange name ceiling) ∧
        (("m", 18446744073709551615) = (name, ceiling) ∨ Text.bytes name < Text.bytes "m")) ∧
      canonicalPayload arrayClaims ≠ .error .unwritable := by
  obtain ⟨-, -, hlarge, hwritable, -⟩ := canonicalPayload_of_document ofBytes_arrayDocument
  have hentry : ("m", 18446744073709551615) ∈ arrayClaims.limits.entries := by decide
  obtain ⟨name, ceiling, herror, -, -, hfirst⟩ := hlarge (by decide) ⟨_, hentry, by decide⟩
  exact ⟨ofBytes_arrayDocument, ⟨name, ceiling, herror, hfirst _ hentry (by decide)⟩, hwritable⟩

/-! ## Normal forms -/

/-- Claims that were read from a document, be it an object or an array in whatever spelling, have a
plain document, which is their normal form: it is read to the very same claims, so that these have
the same plain document again, and no other claims have it. If the claims can be signed, the payload
is read to the same claims as the plain document. -/
theorem normalForm_of_document {document : List UInt8} {claims : Claims}
    (hread : Claims.ofBytes document = .ok claims) :
    ∃ text, claims.toJson? = some text ∧
      Claims.ofBytes (Text.bytes text) = .ok claims ∧
      (∀ again, Claims.ofBytes (Text.bytes text) = .ok again →
        again = claims ∧ again.toJson? = some text) ∧
      (∀ other, other.toJson? = some text → other = claims) ∧
      (claims.issuedAt.instant ≤ claims.expiresAt.instant →
        (∀ entry ∈ claims.limits.entries, entry.2.toNat ≤ 2 ^ 53 - 1) →
          ∃ payload, canonicalPayload claims = .ok payload ∧
            Claims.ofBytes payload = Claims.ofBytes (Text.bytes text)) := by
  have hwritable := Claims.isWritable_of_ofBytes hread
  obtain ⟨text, htext⟩ := hwritable.exists_write fun members => members
  have hback : Claims.ofBytes (Text.bytes text) = .ok claims :=
    Claims.ofBytes_write Claims.isOrder_id htext
  refine ⟨text, htext, hback, ?_, ?_, ?_⟩
  · intro again hagain
    obtain rfl := Except.ok.inj (hback.symm.trans hagain)
    exact ⟨rfl, htext⟩
  · intro other hother
    have hsame := Claims.ofBytes_write Claims.isOrder_id hother
    exact Except.ok.inj (hsame.symm.trans hback)
  · intro hwindow hlimits
    obtain ⟨payload, hpayload⟩ := exists_canonicalPayload hwritable hwindow hlimits
    exact ⟨payload, hpayload, (ofBytes_canonicalPayload hpayload).trans hback.symm⟩

/-- The normal form of the claims of the document. -/
def arrayNormalForm : String :=
  "\x7b\"id\":\"a𝄞\",\"customer_id\":\"c\",\"customer_name\":\"n\",\"email\":\"/\"," ++
    "\"type\":\"trial\",\"tier\":\"pro\",\"issued_at\":\"2016-12-31T23:59:59.999999999Z\"," ++
    "\"expires_at\":\"2027-02-01T09:30:15.5-05:30\",\"features\":[\"a\",\"b\"]," ++
    "\"limits\":\x7b\"m\":18446744073709551615,\"z\":9007199254740992\x7d,\"metadata\":\x7b\x7d\x7d"

/-- The array has its normal form in an object, which is read to the same claims. The canonical
document of the sample is not its normal form, but it is read to the same claims. -/
theorem normalForm_of_document_array :
    arrayClaims.toJson? = some arrayNormalForm ∧
      Claims.ofBytes (Text.bytes arrayNormalForm) = .ok arrayClaims ∧
      ∃ text payload, sampleClaims.toJson? = some text ∧
        canonicalPayload sampleClaims = .ok payload ∧
        payload ≠ Text.bytes text ∧ Claims.ofBytes payload = Claims.ofBytes (Text.bytes text) := by
  obtain ⟨text, htext, hback, -⟩ := normalForm_of_document ofBytes_arrayDocument
  have hnormal : arrayClaims.toJson? = some arrayNormalForm := by decide +kernel
  obtain rfl := Option.some.inj (htext.symm.trans hnormal)
  obtain ⟨plain, hplain, -, -, -, hsigned⟩ :=
    normalForm_of_document (ofBytes_canonicalPayload canonicalPayload_sampleClaims)
  obtain ⟨payload, hpayload, hsame⟩ := hsigned (by decide) (by decide)
  refine ⟨hnormal, hback, plain, payload, hplain, hpayload, ?_, hsame⟩
  -- The payload starts with the customer, and the normal form with the id.
  obtain rfl := Except.ok.inj (canonicalPayload_sampleClaims.symm.trans hpayload)
  have hid : sampleClaims.toJson?.any fun text => Text.bytes text ≠ Text.bytes sampleDocument := by
    decide +kernel
  rw [hplain] at hid
  exact fun heq => absurd heq.symm (by simpa using hid)

end Entitlement.Key
