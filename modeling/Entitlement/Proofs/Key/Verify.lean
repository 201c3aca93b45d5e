import Entitlement.Key.Verify
import Entitlement.Proofs.Key.Envelope
import Entitlement.Proofs.Steps
import Entitlement.Signature.Ed25519

/-! # The gate of verification

A key passes if its text can be taken apart into an envelope, a trusted key accepts the signature
over the payload bytes as they stand, and the payload names a window that contains the instant.
Until the signature has been accepted the payload decides nothing: all rejected signatures look
alike.
-/

namespace Entitlement.Calendar.Timestamp

theorem not_lt {a b : Timestamp} : ¬ a < b ↔ b ≤ a := Int.not_lt

theorem not_le {a b : Timestamp} : ¬ a ≤ b ↔ b < a := Int.not_le

end Entitlement.Calendar.Timestamp

namespace Entitlement.Grant.Claims

open Calendar

/-- The window of the claims contains an instant. -/
def Covers (claims : Claims) (now : Timestamp) : Prop :=
  claims.issuedAt ≤ now ∧ now < claims.expiresAt

instance (claims : Claims) (now : Timestamp) : Decidable (claims.Covers now) :=
  inferInstanceAs (Decidable (_ ∧ _))

/-- A window that contains an instant does not end before it starts. -/
theorem Covers.hasValidWindow {claims : Claims} {now : Timestamp} (hcovers : claims.Covers now) :
    claims.hasValidWindow = true := by
  obtain ⟨hstarted, hrunning⟩ := hcovers
  exact decide_eq_true (Int.le_trans hstarted (Int.le_of_lt hrunning))

end Entitlement.Grant.Claims

namespace Entitlement.Key

open Calendar Grant Signature

/-! ## Taking a key apart -/

namespace Envelope

/-- A key reads as an envelope of the one version there is: without the blanks around it, it is the
URL-safe base64 of an object that holds the payload and the signature in base64 of their own. -/
def Reads (key : String) (envelope : Envelope) : Prop :=
  ∃ document payload signature,
    Base64.Alphabet.urlSafe.decode (Text.trim key) = .ok document ∧
      reader.read document = .ok (formatVersion, payload, signature) ∧
      Base64.Alphabet.standard.decode payload = .ok envelope.payload ∧
      Base64.Alphabet.standard.decode signature = .ok envelope.signature ∧
      envelope.version = formatVersion

/-- Taking a key apart succeeds with the envelope that the key reads as. -/
theorem decode_eq_ok_iff {key : String} {envelope : Envelope} :
    decode key = .ok envelope ↔ Reads key envelope := by
  unfold decode Reads
  simp only [bind_eq_ok_iff, mapError_eq_ok_iff, Prod.exists]
  constructor
  · rintro ⟨document, hdocument, version, payload, signature, hread, hrest⟩
    split at hrest
    next hversion => cases hrest
    next hversion =>
      obtain rfl : version = formatVersion := Decidable.not_not.mp hversion
      simp only [bind_eq_ok_iff, mapError_eq_ok_iff] at hrest
      obtain ⟨payloadBytes, hpayload, signatureBytes, hsignature, hdone⟩ := hrest
      cases hdone
      exact ⟨document, payload, signature, hdocument, hread, hpayload, hsignature, rfl⟩
  · rintro ⟨document, payload, signature, hdocument, hread, hpayload, hsignature, hversion⟩
    refine ⟨document, hdocument, formatVersion, payload, signature, hread, ?_⟩
    rw [if_neg (not_not_intro rfl), hpayload, hsignature, ← hversion]
    rfl

/-- The key of an envelope reads as that envelope, whatever blanks stand around the key. -/
theorem reads_encode (envelope : Envelope) (hversion : envelope.version = formatVersion)
    {before after : String} (hbefore : Text.IsBlankText before) (hafter : Text.IsBlankText after) :
    Reads (before ++ envelope.encode ++ after) envelope := by
  rw [← decode_eq_ok_iff, decode_encode envelope hbefore hafter, if_pos hversion]

/-- The key of an envelope reads as that envelope. -/
theorem reads_encode_self (envelope : Envelope) (hversion : envelope.version = formatVersion) :
    Reads envelope.encode envelope := by
  have hreads := reads_encode envelope hversion Text.isBlankText_empty Text.isBlankText_empty
  rwa [String.empty_append, String.append_empty] at hreads

/-- A trusted key accepts the signature of an envelope, which has the length of a signature. -/
def IsTrusted (scheme : Scheme) (trusted : TrustSet) (envelope : Envelope) : Prop :=
  envelope.signature.length = 64 ∧
    ∃ key ∈ trusted, scheme.accepts key envelope.payload envelope.signature = true

end Envelope

theorem isAuthentic_iff {scheme : Scheme} {trusted : TrustSet} {envelope : Envelope} :
    isAuthentic scheme trusted envelope = true ↔ envelope.IsTrusted scheme trusted := by
  simp [isAuthentic, Envelope.IsTrusted, signatureLength]

theorem openEnvelope_of_reads {key : String} {envelope : Envelope}
    (hreads : Envelope.Reads key envelope) : openEnvelope key = .ok envelope := by
  rw [openEnvelope, Envelope.decode_eq_ok_iff.mpr hreads]
  rfl

/-! ## The license of a payload -/

/-- A payload has a license at the instants of the window that it names, and the license is made of
its claims. -/
theorem licenseOf_eq_ok_iff {payload : List UInt8} {now : Timestamp} {license : License} :
    licenseOf payload now = .ok license ↔
      ∃ claims, Claims.ofBytes payload = .ok claims ∧ claims.Covers now ∧
        license = ⟨claims, .verified⟩ := by
  unfold licenseOf
  cases hclaims : Claims.ofBytes payload with
  | error e => simp
  | ok claims =>
      simp only [Except.ok.injEq, exists_eq_left']
      -- Three refusals come first, and the license is what is left.
      constructor
      · intro hlicense
        split at hlicense
        · cases hlicense
        · split at hlicense
          · cases hlicense
          next hstarted =>
            split at hlicense
            · cases hlicense
            next hended =>
              cases hlicense
              exact ⟨⟨Timestamp.not_lt.mp hstarted, Timestamp.not_le.mp hended⟩, rfl⟩
      · rintro ⟨hcovers, rfl⟩
        rw [if_neg (not_not_intro hcovers.hasValidWindow),
          if_neg (Timestamp.not_lt.mpr hcovers.1), if_neg (Timestamp.not_le.mpr hcovers.2)]

/-- Whatever is wrong with a payload, it is not its signature. -/
theorem licenseOf_ne_invalidSignature (payload : List UInt8) (now : Timestamp) :
    licenseOf payload now ≠ .error .invalidSignature := by
  unfold licenseOf
  intro hlicense
  split at hlicense
  · cases hlicense
  · repeat' split at hlicense
    all_goals cases hlicense

/-! ## The gate -/

section Gate

variable {scheme : Scheme} {trusted : TrustSet} {key : String} {now : Timestamp}

theorem verify_of_isTrusted {envelope : Envelope} (hreads : Envelope.Reads key envelope)
    (htrusted : envelope.IsTrusted scheme trusted) :
    verify scheme trusted key now = licenseOf envelope.payload now := by
  simp only [verify, openEnvelope_of_reads hreads, isAuthentic_iff.mpr htrusted, if_true]

/-- Nothing but the signature of an untrusted envelope shows. -/
theorem verify_of_not_isTrusted {envelope : Envelope} (hreads : Envelope.Reads key envelope)
    (huntrusted : ¬ envelope.IsTrusted scheme trusted) :
    verify scheme trusted key now = .error .invalidSignature := by
  have hrejected : isAuthentic scheme trusted envelope ≠ true :=
    fun haccepted => huntrusted (isAuthentic_iff.mp haccepted)
  simp only [verify, openEnvelope_of_reads hreads, if_neg hrejected]

theorem reads_of_verify {license : License}
    (hverify : verify scheme trusted key now = .ok license) :
    ∃ envelope, Envelope.Reads key envelope ∧ envelope.IsTrusted scheme trusted := by
  unfold verify openEnvelope at hverify
  cases hdecode : Envelope.decode key with
  | error e => rw [hdecode] at hverify; cases hverify
  | ok envelope =>
      have hreads := Envelope.decode_eq_ok_iff.mp hdecode
      refine ⟨envelope, hreads, ?_⟩
      apply Classical.byContradiction
      intro huntrusted
      cases (verify_of_not_isTrusted hreads huntrusted).symm.trans hverify

/-- A key passes the gate if it reads as a trusted envelope whose payload names a window around the
instant, and then it yields the license of the claims in that payload. -/
theorem verify_eq_ok_iff {license : License} :
    verify scheme trusted key now = .ok license ↔
      ∃ envelope claims, Envelope.Reads key envelope ∧ envelope.IsTrusted scheme trusted ∧
        Claims.ofBytes envelope.payload = .ok claims ∧ claims.Covers now ∧
        license = ⟨claims, .verified⟩ := by
  constructor
  · intro hverify
    obtain ⟨envelope, hreads, htrusted⟩ := reads_of_verify hverify
    rw [verify_of_isTrusted hreads htrusted] at hverify
    obtain ⟨claims, hlicense⟩ := licenseOf_eq_ok_iff.mp hverify
    exact ⟨envelope, claims, hreads, htrusted, hlicense⟩
  · rintro ⟨envelope, claims, hreads, htrusted, hlicense⟩
    rw [verify_of_isTrusted hreads htrusted]
    exact licenseOf_eq_ok_iff.mpr ⟨claims, hlicense⟩

/-- What passes the gate is never the Community default, whatever its claims are. -/
theorem isCommunity_of_verify {license : License}
    (hverify : verify scheme trusted key now = .ok license) : license.isCommunity = false := by
  obtain ⟨envelope, claims, -, -, -, -, rfl⟩ := verify_eq_ok_iff.mp hverify
  rfl

end Gate

/-- Verification is a gate. A key passes exactly if it reads as an envelope that some trusted key
accepts and whose payload names a window around the instant. The keys of any two envelopes that no
trusted key accepts are rejected alike at any two instants, and the key of an envelope that is
accepted is never rejected for its signature. -/
theorem verify_gate (scheme : Scheme) (trusted : TrustSet) :
    (∀ (key : String) (now : Timestamp) (license : License),
      verify scheme trusted key now = .ok license ↔
        ∃ envelope claims, Envelope.Reads key envelope ∧ envelope.IsTrusted scheme trusted ∧
          Claims.ofBytes envelope.payload = .ok claims ∧ claims.Covers now ∧
          license = ⟨claims, .verified⟩) ∧
    (∀ (key key' : String) (now now' : Timestamp) (envelope envelope' : Envelope),
      Envelope.Reads key envelope → Envelope.Reads key' envelope' →
      ¬ envelope.IsTrusted scheme trusted → ¬ envelope'.IsTrusted scheme trusted →
        verify scheme trusted key now = .error .invalidSignature ∧
          verify scheme trusted key' now' = verify scheme trusted key now) ∧
    ∀ (key : String) (now : Timestamp) (envelope : Envelope),
      Envelope.Reads key envelope → envelope.IsTrusted scheme trusted →
        verify scheme trusted key now ≠ .error .invalidSignature := by
  refine ⟨fun key now license => verify_eq_ok_iff, ?_, ?_⟩
  · intro key key' now now' envelope envelope' hreads hreads' huntrusted huntrusted'
    have hrejected : verify scheme trusted key now = .error .invalidSignature :=
      verify_of_not_isTrusted hreads huntrusted
    exact ⟨hrejected, (verify_of_not_isTrusted hreads' huntrusted').trans hrejected.symm⟩
  · intro key now envelope hreads htrusted
    rw [verify_of_isTrusted hreads htrusted]
    exact licenseOf_ne_invalidSignature envelope.payload now

/-- An envelope with a signature of zeros, which nobody made. -/
def forged (payload : List UInt8) : Envelope :=
  ⟨formatVersion, payload, List.replicate 64 0⟩

/-- An envelope around any bytes, signed with a secret key of zeros. -/
def zeroSigned (payload : List UInt8) : Envelope :=
  ⟨formatVersion, payload, Ed25519.scheme.sign ⟨List.replicate 32 0, rfl⟩ payload⟩

/-- The public half of the secret key of zeros. -/
def zeroPublicKey : PublicKey :=
  Ed25519.scheme.publicKey ⟨List.replicate 32 0, rfl⟩

/-- Payloads that are no documents: forged ones are rejected alike at both ends of the calendar, and
a signed one is not rejected for its signature. -/
theorem verify_gate_no_document :
    (verify Ed25519.scheme [zeroPublicKey] (forged []).encode License.epoch =
        .error .invalidSignature ∧
      verify Ed25519.scheme [zeroPublicKey] (forged [0x7B]).encode License.endOfTime =
        verify Ed25519.scheme [zeroPublicKey] (forged []).encode License.epoch) ∧
      verify Ed25519.scheme [zeroPublicKey] (zeroSigned [0x7B]).encode License.epoch ≠
        .error .invalidSignature := by
  obtain ⟨-, hforged, hsigned⟩ := verify_gate Ed25519.scheme [zeroPublicKey]
  constructor
  · exact hforged _ _ _ _ (forged []) (forged [0x7B]) (Envelope.reads_encode_self _ rfl)
      (Envelope.reads_encode_self _ rfl) (mt isAuthentic_iff.mpr (by decide +kernel))
      (mt isAuthentic_iff.mpr (by decide +kernel))
  · exact hsigned _ _ (zeroSigned [0x7B]) (Envelope.reads_encode_self _ rfl)
      (isAuthentic_iff.mp (by decide +kernel))

end Entitlement.Key
