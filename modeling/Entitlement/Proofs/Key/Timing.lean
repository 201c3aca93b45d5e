import Entitlement.Proofs.Key.Issue

/-! # What time does to a key

The time decides about a key only through the window of its claims. A key that has no claims to
speak of, or none that anybody vouches for, is refused at all times for one and the same reason. Any
other key waits for the start of its window, passes until the end and is refused from then on.
-/

namespace Entitlement.Grant.Claims

open Calendar

variable {claims : Claims} {now : Timestamp}

/-- The verdict on an instant that the window of the claims leads to. -/
def verdictAt (claims : Claims) (now : Timestamp) : Except Key.VerificationError License :=
  if now < claims.issuedAt then .error (.notYetValid claims.issuedAt)
  else if claims.expiresAt ≤ now then .error (.expired claims.expiresAt)
  else .ok ⟨claims, .verified⟩

theorem verdictAt_of_early (hearly : now < claims.issuedAt) :
    claims.verdictAt now = .error (.notYetValid claims.issuedAt) :=
  if_pos hearly

theorem verdictAt_of_covers (hcovers : claims.Covers now) :
    claims.verdictAt now = .ok ⟨claims, .verified⟩ := by
  rw [verdictAt, if_neg (Timestamp.not_lt.mpr hcovers.1), if_neg (Timestamp.not_le.mpr hcovers.2)]

/-- A window that is not inverted has started when it is over. -/
theorem verdictAt_of_over (hwindow : claims.issuedAt ≤ claims.expiresAt)
    (hover : claims.expiresAt ≤ now) :
    claims.verdictAt now = .error (.expired claims.expiresAt) := by
  have hstarted : ¬ now < claims.issuedAt := Timestamp.not_lt.mpr (Int.le_trans hwindow hover)
  rw [verdictAt, if_neg hstarted, if_pos hover]

/-- An instant lies before the window, in it or after it, and there is one verdict for each. -/
theorem verdictAt_cases (hwindow : claims.issuedAt ≤ claims.expiresAt) (now : Timestamp) :
    (now < claims.issuedAt ∧ claims.verdictAt now = .error (.notYetValid claims.issuedAt)) ∨
      (claims.Covers now ∧ claims.verdictAt now = .ok ⟨claims, .verified⟩) ∨
      (claims.expiresAt ≤ now ∧ claims.verdictAt now = .error (.expired claims.expiresAt)) := by
  by_cases hearly : now < claims.issuedAt
  · exact .inl ⟨hearly, verdictAt_of_early hearly⟩
  · by_cases hover : claims.expiresAt ≤ now
    · exact .inr (.inr ⟨hover, verdictAt_of_over hwindow hover⟩)
    · have hcovers : claims.Covers now := ⟨Timestamp.not_lt.mp hearly, Timestamp.not_le.mp hover⟩
      exact .inr (.inl ⟨hcovers, verdictAt_of_covers hcovers⟩)

theorem verdictAt_eq_notYetValid_iff (hwindow : claims.issuedAt ≤ claims.expiresAt)
    {validFrom : Timestamp} :
    claims.verdictAt now = .error (.notYetValid validFrom) ↔
      now < claims.issuedAt ∧ validFrom = claims.issuedAt := by
  constructor
  · intro hverdict
    rcases verdictAt_cases hwindow now with ⟨hearly, heq⟩ | ⟨-, heq⟩ | ⟨-, heq⟩ <;>
      cases heq.symm.trans hverdict
    exact ⟨hearly, rfl⟩
  · rintro ⟨hearly, rfl⟩
    exact verdictAt_of_early hearly

theorem verdictAt_eq_ok_iff (hwindow : claims.issuedAt ≤ claims.expiresAt) {license : License} :
    claims.verdictAt now = .ok license ↔ claims.Covers now ∧ license = ⟨claims, .verified⟩ := by
  constructor
  · intro hverdict
    rcases verdictAt_cases hwindow now with ⟨-, heq⟩ | ⟨hcovers, heq⟩ | ⟨-, heq⟩ <;>
      cases heq.symm.trans hverdict
    exact ⟨hcovers, rfl⟩
  · rintro ⟨hcovers, rfl⟩
    exact verdictAt_of_covers hcovers

theorem verdictAt_eq_expired_iff (hwindow : claims.issuedAt ≤ claims.expiresAt)
    {expiredAt : Timestamp} :
    claims.verdictAt now = .error (.expired expiredAt) ↔
      claims.expiresAt ≤ now ∧ expiredAt = claims.expiresAt := by
  constructor
  · intro hverdict
    rcases verdictAt_cases hwindow now with ⟨-, heq⟩ | ⟨-, heq⟩ | ⟨hover, heq⟩ <;>
      cases heq.symm.trans hverdict
    exact ⟨hover, rfl⟩
  · rintro ⟨hover, rfl⟩
    exact verdictAt_of_over hwindow hover

/-- Nothing but instants counts for the case: not how the time is told, nor the ends of the
window. -/
theorem bounds_congr {claims' : Claims} {now' : Timestamp}
    (hissued : claims.issuedAt.instant = claims'.issuedAt.instant)
    (hexpires : claims.expiresAt.instant = claims'.expiresAt.instant)
    (hnow : now.instant = now'.instant) :
    (now < claims.issuedAt ↔ now' < claims'.issuedAt) ∧
      (claims.expiresAt ≤ now ↔ claims'.expiresAt ≤ now') := by
  constructor
  · change now.instant < _ ↔ now'.instant < _
    rw [hissued, hnow]
  · change _ ≤ now.instant ↔ _ ≤ now'.instant
    rw [hexpires, hnow]

end Entitlement.Grant.Claims

namespace Entitlement.Key

open Calendar Grant Signature

/-- Which case a verdict is: the class of a refusal, or none for a key that passes. -/
def caseOf : Except VerificationError License → Option Rejection
  | .ok _ => none
  | .error cause => some cause.kind

theorem caseOf_verdictAt_congr {claims claims' : Claims} {now now' : Timestamp}
    (hissued : claims.issuedAt.instant = claims'.issuedAt.instant)
    (hexpires : claims.expiresAt.instant = claims'.expiresAt.instant)
    (hnow : now.instant = now'.instant) :
    caseOf (claims.verdictAt now) = caseOf (claims'.verdictAt now') := by
  obtain ⟨hearly, hover⟩ := Claims.bounds_congr hissued hexpires hnow
  simp only [Claims.verdictAt, hearly, hover]
  split
  · rfl
  · split <;> rfl

/-- A refusal that does not depend on the time. -/
def VerificationError.IsLasting (cause : VerificationError) : Prop :=
  cause.kind = .invalidFormat ∨ cause.kind = .invalidSignature

/-- The course of the verdicts on a key: it is refused for good, or the window of its claims
decides. -/
inductive Course (verdict : Timestamp → Except VerificationError License) : Prop
  | refused (cause : VerificationError) (hlasting : cause.IsLasting)
      (hverdict : ∀ now, verdict now = .error cause)
  | window (claims : Claims) (hwindow : claims.issuedAt ≤ claims.expiresAt)
      (hverdict : ∀ now, verdict now = claims.verdictAt now)

section Verdicts

variable {scheme : Scheme} {trusted : TrustSet} {key : String} {envelope : Envelope}
  {claims : Claims}

/-- On a trusted envelope whose payload names a window that is not inverted, the window decides. -/
theorem verify_eq_verdictAt (hreads : Envelope.Reads key envelope)
    (htrusted : envelope.IsTrusted scheme trusted)
    (hclaims : Claims.ofBytes envelope.payload = .ok claims)
    (hwindow : claims.issuedAt ≤ claims.expiresAt) (now : Timestamp) :
    verify scheme trusted key now = claims.verdictAt now := by
  have hvalid : claims.hasValidWindow = true := decide_eq_true hwindow
  rw [verify_of_isTrusted hreads htrusted, licenseOf, hclaims]
  exact if_neg (not_not_intro hvalid)

/-- An inverted window is a fault of the format. -/
theorem verify_of_inverted (hreads : Envelope.Reads key envelope)
    (htrusted : envelope.IsTrusted scheme trusted)
    (hclaims : Claims.ofBytes envelope.payload = .ok claims)
    (hinverted : ¬ claims.issuedAt ≤ claims.expiresAt) (now : Timestamp) :
    verify scheme trusted key now = .error (.invalidFormat .invertedWindow) := by
  have hinvalid : ¬ claims.hasValidWindow = true := mt of_decide_eq_true hinverted
  rw [verify_of_isTrusted hreads htrusted, licenseOf, hclaims]
  exact if_pos hinvalid

theorem course_verify (scheme : Scheme) (trusted : TrustSet) (key : String) :
    Course (verify scheme trusted key) := by
  cases hopen : openEnvelope key with
  | error cause =>
      have hlasting : cause.IsLasting := by
        unfold openEnvelope at hopen
        cases hdecode : Envelope.decode key with
        | error e =>
            rw [hdecode] at hopen
            cases e <;> cases hopen <;> first | exact .inl rfl | exact .inr rfl
        | ok envelope => rw [hdecode] at hopen; cases hopen
      exact .refused cause hlasting fun now => by rw [verify, hopen]
  | ok envelope =>
      have hreads : Envelope.Reads key envelope :=
        Envelope.decode_eq_ok_iff.mp (mapError_eq_ok_iff.mp hopen)
      by_cases htrusted : envelope.IsTrusted scheme trusted
      · cases hclaims : Claims.ofBytes envelope.payload with
        | error cause =>
            refine .refused (.invalidFormat (.payload cause)) (.inl rfl) fun now => ?_
            rw [verify_of_isTrusted hreads htrusted, licenseOf, hclaims]
        | ok claims =>
            by_cases hwindow : claims.issuedAt ≤ claims.expiresAt
            · exact .window claims hwindow (verify_eq_verdictAt hreads htrusted hclaims hwindow)
            · exact .refused _ (.inl rfl) (verify_of_inverted hreads htrusted hclaims hwindow)
      · exact .refused .invalidSignature (.inr rfl) fun _ => verify_of_not_isTrusted hreads htrusted

/-- Envelopes whose windows have the same instants are in the same case at the same instant. -/
theorem caseOf_verify_congr {key' : String} {envelope' : Envelope} {claims' : Claims}
    {now now' : Timestamp} (hreads : Envelope.Reads key envelope)
    (hreads' : Envelope.Reads key' envelope') (htrusted : envelope.IsTrusted scheme trusted)
    (htrusted' : envelope'.IsTrusted scheme trusted)
    (hclaims : Claims.ofBytes envelope.payload = .ok claims)
    (hclaims' : Claims.ofBytes envelope'.payload = .ok claims')
    (hissued : claims.issuedAt.instant = claims'.issuedAt.instant)
    (hexpires : claims.expiresAt.instant = claims'.expiresAt.instant)
    (hnow : now.instant = now'.instant) :
    caseOf (verify scheme trusted key now) = caseOf (verify scheme trusted key' now') := by
  have hsame : claims.issuedAt ≤ claims.expiresAt ↔ claims'.issuedAt ≤ claims'.expiresAt := by
    change _ ≤ claims.expiresAt.instant ↔ _ ≤ claims'.expiresAt.instant
    rw [hissued, hexpires]
  by_cases hwindow : claims.issuedAt ≤ claims.expiresAt
  · rw [verify_eq_verdictAt hreads htrusted hclaims hwindow,
      verify_eq_verdictAt hreads' htrusted' hclaims' (hsame.mp hwindow)]
    exact caseOf_verdictAt_congr hissued hexpires hnow
  · rw [verify_of_inverted hreads htrusted hclaims hwindow,
      verify_of_inverted hreads' htrusted' hclaims' (mt hsame.mpr hwindow)]

end Verdicts

namespace Course

variable {verdict : Timestamp → Except VerificationError License} {earlier later : Timestamp}

/-- A refusal that does not depend on the time stays. -/
theorem of_isLasting (hcourse : Course verdict) {cause : VerificationError}
    (hverdict : verdict earlier = .error cause) (hlasting : cause.IsLasting) (later : Timestamp) :
    verdict later = .error cause := by
  cases hcourse with
  | refused other _ hrefused =>
      cases (hrefused earlier).symm.trans hverdict
      exact hrefused later
  | window claims hwindow hclaims =>
      rw [hclaims] at hverdict
      -- Neither refusal for the time lasts.
      rcases Claims.verdictAt_cases hwindow earlier with ⟨-, heq⟩ | ⟨-, heq⟩ | ⟨-, heq⟩ <;>
        cases heq.symm.trans hverdict <;> rcases hlasting with hkind | hkind <;> cases hkind

/-- A key that passes goes on passing with the same license until its window is over. -/
theorem of_ok (hcourse : Course verdict) (hle : earlier ≤ later) {license : License}
    (hverdict : verdict earlier = .ok license) :
    verdict later = .ok license ∨ verdict later = .error (.expired license.claims.expiresAt) := by
  cases hcourse with
  | refused cause _ hrefused => cases (hrefused earlier).symm.trans hverdict
  | window claims hwindow hclaims =>
      rw [hclaims, Claims.verdictAt_eq_ok_iff hwindow] at hverdict
      obtain ⟨hcovers, rfl⟩ := hverdict
      rw [hclaims]
      by_cases hover : claims.expiresAt ≤ later
      · exact .inr (Claims.verdictAt_of_over hwindow hover)
      · exact .inl (Claims.verdictAt_of_covers
          ⟨Int.le_trans hcovers.1 hle, Timestamp.not_le.mp hover⟩)

/-- A key that has expired stays so. -/
theorem of_expired (hcourse : Course verdict) (hle : earlier ≤ later) {expiredAt : Timestamp}
    (hverdict : verdict earlier = .error (.expired expiredAt)) :
    verdict later = .error (.expired expiredAt) := by
  cases hcourse with
  | refused cause hlasting hrefused =>
      cases (hrefused earlier).symm.trans hverdict
      rcases hlasting with hkind | hkind <;> cases hkind
  | window claims hwindow hclaims =>
      rw [hclaims, Claims.verdictAt_eq_expired_iff hwindow] at hverdict ⊢
      exact ⟨Int.le_trans hverdict.1 hle, hverdict.2⟩

/-- A key that is not valid yet has a window, which is still to come. -/
theorem of_notYetValid (hcourse : Course verdict) {validFrom : Timestamp}
    (hverdict : verdict earlier = .error (.notYetValid validFrom)) :
    ∃ claims : Claims, claims.issuedAt ≤ claims.expiresAt ∧ earlier < claims.issuedAt ∧
      validFrom = claims.issuedAt ∧ ∀ now, verdict now = claims.verdictAt now := by
  cases hcourse with
  | refused cause hlasting hrefused =>
      cases (hrefused earlier).symm.trans hverdict
      rcases hlasting with hkind | hkind <;> cases hkind
  | window claims hwindow hclaims =>
      rw [hclaims, Claims.verdictAt_eq_notYetValid_iff hwindow] at hverdict
      exact ⟨claims, hwindow, hverdict.1, hverdict.2, hclaims⟩

/-- Timestamps that name one instant lead to one verdict. -/
theorem congr (hcourse : Course verdict) {now now' : Timestamp}
    (hnow : now.instant = now'.instant) :
    verdict now = verdict now' := by
  cases hcourse with
  | refused cause _ hrefused => rw [hrefused, hrefused]
  | window claims _ hclaims =>
      obtain ⟨hearly, hover⟩ := @Claims.bounds_congr claims _ claims _ rfl rfl hnow
      simp only [hclaims, Claims.verdictAt, hearly, hover]

end Course

end Entitlement.Key
