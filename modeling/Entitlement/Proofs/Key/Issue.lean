import Entitlement.Key.Issue
import Entitlement.Proofs.Grant.Claims
import Entitlement.Proofs.Key.Verify

/-! # Issued keys pass

A key that was issued for some claims yields exactly these claims when it is verified: every layer
that issuing puts around the claims is taken off again without loss. What has to be known of the
signature scheme is that it accepts its own signature of the one payload that was signed.
-/

namespace Entitlement.Signature.Scheme

/-- The public half of a secret key accepts the signature that the secret key makes of a message. -/
def Honors (scheme : Scheme) (secret : SecretKey) (message : List UInt8) : Prop :=
  scheme.accepts (scheme.publicKey secret) message (scheme.sign secret message) = true

instance (scheme : Scheme) (secret : SecretKey) (message : List UInt8) :
    Decidable (scheme.Honors secret message) :=
  inferInstanceAs (Decidable (_ = true))

end Entitlement.Signature.Scheme

namespace Entitlement.Key

open Calendar Grant Plan Signature

/-- Claims are signed as their canonical document, if the window is not inverted, every limit can be
carried and the document can be written. -/
theorem canonicalPayload_eq_ok_iff {claims : Claims} {payload : List UInt8} :
    canonicalPayload claims = .ok payload ↔
      claims.hasValidWindow = true ∧ claims.limits.firstUnencodable? = none ∧
        ∃ document, claims.toCanonical? = some document ∧ payload = Text.bytes document := by
  unfold canonicalPayload
  split
  next hinverted => simp [Bool.eq_false_iff.mpr hinverted]
  next hvalid =>
    cases hlimits : claims.limits.firstUnencodable? with
    | some entry => simp
    | none =>
        cases hdocument : claims.toCanonical? with
        | none => simp
        | some document => simp [Decidable.not_not.mp hvalid, eq_comm]

/-- The payload of claims can be told from their members in ascending order. -/
theorem canonicalPayload_of_ordered {claims : Claims} (issuedAt expiresAt : String)
    (ordered : List Json.Member) (hvalid : claims.hasValidWindow = true)
    (hlimits : claims.limits.firstUnencodable? = none)
    (hissued : Rfc3339.format? claims.issuedAt = some issuedAt)
    (hexpires : Rfc3339.format? claims.expiresAt = some expiresAt)
    (hordered : ordered.Perm (claims.members Json.canonicalOrder issuedAt expiresAt))
    (hascending : ordered.Pairwise Json.Before) {document : String}
    (hdocument : document = Json.object ordered) :
    canonicalPayload claims = .ok (Text.bytes document) := by
  refine canonicalPayload_eq_ok_iff.mpr ⟨hvalid, hlimits, document, ?_, rfl⟩
  rw [← Json.canonicalOrder_eq hordered hascending] at hdocument
  exact Claims.write?_eq_some_iff.mpr ⟨issuedAt, expiresAt, hissued, hexpires, hdocument⟩

/-- The signed bytes are read back to the claims. -/
theorem ofBytes_canonicalPayload {claims : Claims} {payload : List UInt8}
    (hpayload : canonicalPayload claims = .ok payload) : Claims.ofBytes payload = .ok claims := by
  obtain ⟨-, -, document, hdocument, rfl⟩ := canonicalPayload_eq_ok_iff.mp hpayload
  exact Claims.ofBytes_write Arrangement.isOrder_canonicalOrder hdocument

/-- The envelope of a signed payload. -/
def signedEnvelope (scheme : Scheme) (secret : SecretKey) (payload : List UInt8) : Envelope :=
  ⟨formatVersion, payload, scheme.sign secret payload⟩

theorem issue_eq_ok_iff {scheme : Scheme} {secret : SecretKey} {claims : Claims} {key : String} :
    issue scheme secret claims = .ok key ↔
      ∃ payload, canonicalPayload claims = .ok payload ∧
        key = (signedEnvelope scheme secret payload).encode := by
  unfold issue sign
  cases hpayload : canonicalPayload claims with
  | error e => simp [bind, Except.bind, Except.map]
  | ok payload =>
      simp [bind, Except.bind, Except.map, pure, Except.pure, signedEnvelope, eq_comm]

/-- A key is issued for no more than one set of claims, whoever signs it. -/
theorem claims_eq_of_issue {scheme scheme' : Scheme} {secret secret' : SecretKey}
    {claims claims' : Claims} {key : String} (hissue : issue scheme secret claims = .ok key)
    (hissue' : issue scheme' secret' claims' = .ok key) : claims = claims' := by
  obtain ⟨payload, hpayload, hkey⟩ := issue_eq_ok_iff.mp hissue
  obtain ⟨payload', hpayload', hkey'⟩ := issue_eq_ok_iff.mp hissue'
  have hdecoded : Envelope.decode key = .ok (signedEnvelope scheme secret payload) := by
    rw [hkey]
    exact Envelope.decode_eq_ok_iff.mpr (Envelope.reads_encode_self _ rfl)
  have hdecoded' : Envelope.decode key = .ok (signedEnvelope scheme' secret' payload') := by
    rw [hkey']
    exact Envelope.decode_eq_ok_iff.mpr (Envelope.reads_encode_self _ rfl)
  have henvelope : signedEnvelope scheme secret payload = signedEnvelope scheme' secret' payload' :=
    Except.ok.inj (hdecoded.symm.trans hdecoded')
  obtain rfl : payload = payload' := congrArg Envelope.payload henvelope
  have hread := ofBytes_canonicalPayload hpayload
  rw [ofBytes_canonicalPayload hpayload'] at hread
  exact (Except.ok.inj hread).symm

theorem signedEnvelope_isTrusted {scheme : Scheme} {trusted : TrustSet} {secret : SecretKey}
    {payload : List UInt8} (htrusted : scheme.publicKey secret ∈ trusted)
    (hhonors : scheme.Honors secret payload) :
    (signedEnvelope scheme secret payload).IsTrusted scheme trusted :=
  ⟨scheme.sign_length secret payload, scheme.publicKey secret, htrusted, hhonors⟩

/-- From the start of its window on a key that has been signed is judged by its claims alone. -/
theorem verify_signedEnvelope {scheme : Scheme} {trusted : TrustSet} {secret : SecretKey}
    {claims : Claims} {payload : List UInt8} {now : Timestamp}
    (hpayload : canonicalPayload claims = .ok payload) (hhonors : scheme.Honors secret payload)
    (htrusted : scheme.publicKey secret ∈ trusted) (hstarted : claims.issuedAt ≤ now) :
    verify scheme trusted (signedEnvelope scheme secret payload).encode now =
      if claims.expiresAt ≤ now then .error (.expired claims.expiresAt)
      else .ok ⟨claims, .verified⟩ := by
  have hreads : Envelope.Reads (signedEnvelope scheme secret payload).encode _ :=
    Envelope.reads_encode_self _ rfl
  obtain ⟨hvalid, -⟩ := canonicalPayload_eq_ok_iff.mp hpayload
  rw [verify_of_isTrusted hreads (signedEnvelope_isTrusted htrusted hhonors), licenseOf]
  dsimp only [signedEnvelope]
  rw [ofBytes_canonicalPayload hpayload]
  dsimp only
  rw [if_neg (not_not_intro hvalid), if_neg (Timestamp.not_lt.mpr hstarted)]

/-- A key passes throughout its window under every set of keys that trusts the signer, and it yields
the claims it was issued for. Written and signed once more, they give the same document, the same
payload and the same key. -/
theorem verify_issue {scheme : Scheme} {trusted : TrustSet} {secret : SecretKey} {claims : Claims}
    {key : String} {now : Timestamp} (hissue : issue scheme secret claims = .ok key)
    (hhonors : ∀ payload, canonicalPayload claims = .ok payload → scheme.Honors secret payload)
    (htrusted : scheme.publicKey secret ∈ trusted)
    (hstarted : claims.issuedAt ≤ now) (hrunning : now < claims.expiresAt) :
    ∃ license envelope, verify scheme trusted key now = .ok license ∧
      license.isCommunity = false ∧ license.claims = claims ∧
      license.claims.toJson? = claims.toJson? ∧
      Envelope.Reads key envelope ∧ canonicalPayload license.claims = .ok envelope.payload ∧
      issue scheme secret license.claims = .ok key := by
  obtain ⟨payload, hpayload, hkey⟩ := issue_eq_ok_iff.mp hissue
  have hreads : Envelope.Reads key (signedEnvelope scheme secret payload) := by
    rw [hkey]
    exact Envelope.reads_encode_self _ rfl
  have haccepted : (signedEnvelope scheme secret payload).IsTrusted scheme trusted :=
    signedEnvelope_isTrusted htrusted (hhonors payload hpayload)
  have hverify : verify scheme trusted key now = .ok ⟨claims, .verified⟩ :=
    verify_eq_ok_iff.mpr ⟨_, claims, hreads, haccepted, ofBytes_canonicalPayload hpayload,
      ⟨hstarted, hrunning⟩, rfl⟩
  exact ⟨⟨claims, .verified⟩, _, hverify, rfl, rfl, rfl, hreads, hpayload, hissue⟩

/-- A secret key of ones. -/
def sampleSecret : SecretKey :=
  ⟨List.replicate 32 1, rfl⟩

/-- Claims with characters that are escaped or lie outside the basic plane, a fraction of a second,
an offset and the largest limit that can be signed. -/
def sampleClaims : Claims where
  id := "a\"b\n\u0001𝄞"
  customerId := "c"
  customerName := "é"
  email := ""
  licenseType := .trial
  tier := .pro
  issuedAt :=
    ⟨⟨2026, 2, 1, by decide, by decide, by decide⟩,
      ⟨9, 30, 15, 123456789, by decide, by decide, by decide, by decide⟩, ⟨-330, by decide⟩⟩
  expiresAt :=
    ⟨⟨2027, 2, 1, by decide, by decide, by decide⟩,
      ⟨9, 30, 15, 500000000, by decide, by decide, by decide, by decide⟩, .utc⟩
  features := (∅ : NameSet).insert "scim"
  limits := Limits.empty.set "seats" Limits.maxEncodable
  metadata := (∅ : Table String).set "\"" "\t"

/-- The canonical document of the sample. -/
def sampleDocument : String :=
  "\x7b\"customer_id\":\"c\",\"customer_name\":\"é\",\"email\":\"\"," ++
    "\"expires_at\":\"2027-02-01T09:30:15.5Z\",\"features\":[\"scim\"]," ++
    "\"id\":\"a\\\"b\\n\\u0001𝄞\",\"issued_at\":\"2026-02-01T09:30:15.123456789-05:30\"," ++
    "\"limits\":\x7b\"seats\":9007199254740991\x7d,\"metadata\":\x7b\"\\\"\":\"\\t\"\x7d," ++
    "\"tier\":\"pro\",\"type\":\"trial\"\x7d"

/-- The members of the sample in the order of its canonical document. -/
def sampleMembers : List Json.Member :=
  [("customer_id", "\"c\""), ("customer_name", "\"é\""), ("email", "\"\""),
    ("expires_at", "\"2027-02-01T09:30:15.5Z\""), ("features", "[\"scim\"]"),
    ("id", "\"a\\\"b\\n\\u0001𝄞\""), ("issued_at", "\"2026-02-01T09:30:15.123456789-05:30\""),
    ("limits", "\x7b\"seats\":9007199254740991\x7d"), ("metadata", "\x7b\"\\\"\":\"\\t\"\x7d"),
    ("tier", "\"pro\""), ("type", "\"trial\"")]

theorem writeLimits_sampleClaims : Claims.writeLimits Json.canonicalOrder sampleClaims.limits =
    "\x7b\"seats\":9007199254740991\x7d" := by
  -- Sorting does not evaluate, so the object is shown to be in order instead.
  rw [Claims.writeLimits, Json.canonicalOrder_eq (List.Perm.refl _) (by decide)]
  decide

theorem writeMetadata_sampleClaims :
    Claims.writeMetadata Json.canonicalOrder sampleClaims.metadata =
      "\x7b\"\\\"\":\"\\t\"\x7d" := by
  rw [Claims.writeMetadata, Json.canonicalOrder_eq (List.Perm.refl _) (by decide)]
  decide

theorem canonicalPayload_sampleClaims :
    canonicalPayload sampleClaims = .ok (Text.bytes sampleDocument) := by
  refine canonicalPayload_of_ordered "2026-02-01T09:30:15.123456789-05:30"
    "2027-02-01T09:30:15.5Z" sampleMembers (by decide) (by decide)
    (by decide) (by decide) ?_ (by decide) (by decide +kernel)
  rw [Claims.members, writeLimits_sampleClaims, writeMetadata_sampleClaims]
  decide

theorem honors_sampleDocument :
    Ed25519.scheme.Honors sampleSecret (Text.bytes sampleDocument) := by
  decide +kernel

/-- The envelope of the sample. -/
def sampleEnvelope : Envelope :=
  signedEnvelope Ed25519.scheme sampleSecret (Text.bytes sampleDocument)

/-- The signer of the sample, and nobody else. -/
def sampleTrusted : TrustSet :=
  [Ed25519.scheme.publicKey sampleSecret]

/-- The key of the sample is issued and passes at the very start of its window. -/
theorem verify_issue_sampleClaims :
    issue Ed25519.scheme sampleSecret sampleClaims = .ok sampleEnvelope.encode ∧
      ∃ license envelope,
        verify Ed25519.scheme sampleTrusted sampleEnvelope.encode sampleClaims.issuedAt =
          .ok license ∧
        license.isCommunity = false ∧ license.claims = sampleClaims ∧
        license.claims.toJson? = sampleClaims.toJson? ∧
        Envelope.Reads sampleEnvelope.encode envelope ∧
        canonicalPayload license.claims = .ok envelope.payload ∧
        issue Ed25519.scheme sampleSecret license.claims = .ok sampleEnvelope.encode := by
  have hissue : issue Ed25519.scheme sampleSecret sampleClaims = .ok sampleEnvelope.encode :=
    issue_eq_ok_iff.mpr ⟨_, canonicalPayload_sampleClaims, rfl⟩
  refine ⟨hissue, verify_issue hissue ?_ List.mem_cons_self (by decide)
    (by decide)⟩
  intro payload hpayload
  obtain rfl := Except.ok.inj (canonicalPayload_sampleClaims.symm.trans hpayload)
  exact honors_sampleDocument

theorem verify_sampleEnvelope {now : Timestamp} (hstarted : sampleClaims.issuedAt ≤ now) :
    verify Ed25519.scheme sampleTrusted sampleEnvelope.encode now =
      if sampleClaims.expiresAt ≤ now then .error (.expired sampleClaims.expiresAt)
      else .ok ⟨sampleClaims, .verified⟩ :=
  verify_signedEnvelope canonicalPayload_sampleClaims honors_sampleDocument List.mem_cons_self
    hstarted

theorem verify_sampleEnvelope_issuedAt :
    verify Ed25519.scheme sampleTrusted sampleEnvelope.encode sampleClaims.issuedAt =
      .ok ⟨sampleClaims, .verified⟩ :=
  (verify_sampleEnvelope (by decide)).trans (if_neg (by decide))

theorem verify_sampleEnvelope_endOfTime :
    verify Ed25519.scheme sampleTrusted sampleEnvelope.encode License.endOfTime =
      .error (.expired sampleClaims.expiresAt) :=
  (verify_sampleEnvelope (by decide)).trans (if_pos (by decide))

end Entitlement.Key
