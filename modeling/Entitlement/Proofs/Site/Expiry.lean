import Entitlement.Proofs.Calendar.Order
import Entitlement.Proofs.Key.Timing
import Entitlement.Proofs.Site.Convergence

/-! # Keys that expire

Verdicts move one way in time, so a site whose clock is never set back never changes its mind about
a key that has expired. Loads and checks report what they found at the reading of the clock, and
nothing else matters: not the license in force, not the commands that overtake a check, not the
tasks.
-/

namespace Entitlement.Custody

open Calendar Grant

/-- The verdict that a check came to. -/
def Revalidation.verdict : Revalidation → Except Key.VerificationError License
  | .renewed license => .ok license
  | .demoted cause | .unchanged cause => .error cause

/-- What a step reports of the key that it checks: the result of a load, or what came of a check. -/
def Step.report? (verdict : Verdict) (c : Custody) :
    Step → Option (Except Key.VerificationError License)
  | .command (.load key) => some (c.load verdict key).2
  | .command _ => none
  | .settle key snapshot => some (c.settle verdict key snapshot).2.verdict

/-- The clock is not set back by any of some steps. -/
def IsForward (verdict : Verdict) : Custody → List Step → Prop
  | _, [] => True
  | c, step :: more =>
    c.clock ≤ (c.step verdict step).clock ∧ (c.step verdict step).IsForward verdict more

variable {verdict : Verdict} {c : Custody} {step : Step} {key : String}

/-- A step reports the verdict on its key at the reading of the clock. -/
theorem report?_of_key (hkey : step.key? = some key) :
    step.report? verdict c = some (verdict key c.clock) := by
  cases step with
  | command command =>
      cases command with
      | load loaded =>
          obtain rfl := Option.some.inj hkey
          cases hverdict : verdict loaded c.clock with
          | ok license => rw [Step.report?, load_of_ok hverdict]
          | error cause => rw [Step.report?, load_of_error hverdict]
      | _ => cases hkey
  | settle checked snapshot =>
      obtain rfl := Option.some.inj hkey
      cases hverdict : verdict checked c.clock with
      | ok license => rw [Step.report?, settle_of_ok hverdict, Revalidation.verdict]
      | error cause =>
          by_cases hdrop : c.isDroppable snapshot = true
          · rw [Step.report?, settle_of_isDroppable hverdict hdrop, Revalidation.verdict]
          · rw [Step.report?, settle_of_not_isDroppable hverdict (Bool.eq_false_iff.mpr hdrop),
              Revalidation.verdict]

/-- A step that reports an error puts no license of its key in force. -/
theorem replacement?_of_error {cause : Key.VerificationError} (hkey : step.key? = some key)
    (hreport : step.report? verdict c = some (.error cause)) (check : Check) :
    c.replacement? verdict step ≠ some (.verified check) := by
  intro hsource
  obtain rfl : (⟨key, c.clock⟩ : Check) = check := by
    have hcheck := Account.check?_of_replacement hsource
    rw [Step.check?, hkey] at hcheck
    exact Option.some.inj hcheck
  obtain ⟨-, hgives⟩ := step_of_replacement hsource
  rw [report?_of_key hkey] at hreport
  cases hgives.symm.trans (Option.some.inj hreport)

/-- Only commands that are about the clock move it. -/
theorem clock_step (step : Step) :
    (c.step verdict step).clock =
      match step with
      | .command (.setClock clock) => clock
      | .command (.advanceClock nanos) => (c.clock.addNanos? nanos).getD c.clock
      | _ => c.clock := by
  cases step with
  | command command =>
      rw [Custody.step, execute_fst]
      cases command with
      | load loaded =>
          cases hverdict : verdict loaded c.clock with
          | ok license => simp only [load_of_ok hverdict, announce, install, emit]
          | error cause => simp only [load_of_error hverdict]
      | _ => rfl
  | settle checked snapshot => exact clock_settle snapshot

theorem IsForward.append {list more : List Step} (hforward : c.IsForward verdict (list ++ more)) :
    c.clock ≤ (c.steps verdict list).clock ∧ (c.steps verdict list).IsForward verdict more := by
  induction list generalizing c with
  | nil => exact ⟨Int.le_refl _, hforward⟩
  | cons step list ih =>
      obtain ⟨hstep, hmore⟩ := hforward
      obtain ⟨hlist, hrest⟩ := ih hmore
      exact ⟨Int.le_trans hstep hlist, hrest⟩

/-- Once a key has been reported to be expired, every later report of it is the same and puts no
license of the key in force, as long as the clock is not set back. -/
theorem report?_of_expired (hcourse : Key.Course (verdict key)) {before between after : List Step}
    {first second : Step} {expiredAt : Timestamp}
    (hforward : c.IsForward verdict (before ++ first :: between ++ second :: after))
    (hfirst : first.key? = some key) (hsecond : second.key? = some key)
    (hreport :
      first.report? verdict (c.steps verdict before) = some (.error (.expired expiredAt))) :
    second.report? verdict (c.steps verdict (before ++ first :: between)) =
        some (.error (.expired expiredAt)) ∧
      ∀ check, (c.steps verdict (before ++ first :: between)).replacement? verdict second ≠
        some (.verified check) := by
  have hlater : (c.steps verdict before).clock ≤
      (c.steps verdict (before ++ first :: between)).clock := by
    rw [List.append_assoc] at hforward
    rw [steps_append]
    exact hforward.append.2.append.1
  rw [report?_of_key hfirst] at hreport
  have hsame : second.report? verdict (c.steps verdict (before ++ first :: between)) =
      some (.error (.expired expiredAt)) := by
    rw [report?_of_key hsecond, hcourse.of_expired hlater (Option.some.inj hreport)]
  exact ⟨hsame, replacement?_of_error hsecond hsame⟩

end Entitlement.Custody

namespace Entitlement.Site

open Calendar Custody Grant Signature

/-- Verdicts move one way in time. Of a key that is refused for its form or its signature nothing
else is ever heard; a key that passes goes on passing with the same license until its window is
over; a key that has expired stays so, and its end is told in the same way. A key that is not valid
yet may still become anything else: it passes at the start of its window unless the window is empty,
and has expired at its end. On a trusted envelope whose payload names a window that is not inverted,
the three cases are told apart by instants, to the nanosecond: the start belongs to the window and
the end does not.

Nothing but instants counts. Timestamps of one offset are ordered as they read, so only the offset
can make another order of them; and telling the time or the window with other offsets never leads to
another case. In a run of a site whose clock is never set back, a key that a load or a check has
reported to be expired is reported so by every later load or check, which then puts no license of
the key in force. -/
theorem verdicts_age (scheme : Scheme) (trusted : Key.TrustSet) :
    (∀ (key : String) (earlier later : Timestamp), earlier ≤ later →
      (∀ cause, Key.verify scheme trusted key earlier = .error (.invalidFormat cause) →
        Key.verify scheme trusted key later = .error (.invalidFormat cause)) ∧
      (Key.verify scheme trusted key earlier = .error .invalidSignature →
        Key.verify scheme trusted key later = .error .invalidSignature) ∧
      (∀ license, Key.verify scheme trusted key earlier = .ok license →
        Key.verify scheme trusted key later = .ok license ∨
          Key.verify scheme trusted key later = .error (.expired license.claims.expiresAt)) ∧
      (∀ expiredAt, Key.verify scheme trusted key earlier = .error (.expired expiredAt) →
        Key.verify scheme trusted key later = .error (.expired expiredAt)) ∧
      ∀ validFrom, Key.verify scheme trusted key earlier = .error (.notYetValid validFrom) →
        ∃ claims : Claims, validFrom = claims.issuedAt ∧
          earlier < claims.issuedAt ∧ claims.issuedAt ≤ claims.expiresAt ∧
          (Key.verify scheme trusted key later = .error (.notYetValid validFrom) ∨
            Key.verify scheme trusted key later = .ok ⟨claims, .verified⟩ ∨
            Key.verify scheme trusted key later = .error (.expired claims.expiresAt)) ∧
          (claims.issuedAt < claims.expiresAt →
            Key.verify scheme trusted key claims.issuedAt = .ok ⟨claims, .verified⟩) ∧
          Key.verify scheme trusted key claims.expiresAt = .error (.expired claims.expiresAt)) ∧
    (∀ (key : String) (envelope : Key.Envelope) (claims : Claims) (now : Timestamp),
      Key.Envelope.Reads key envelope → envelope.IsTrusted scheme trusted →
      Claims.ofBytes envelope.payload = .ok claims →
      claims.issuedAt.instant ≤ claims.expiresAt.instant →
        (Key.verify scheme trusted key now = .error (.notYetValid claims.issuedAt) ↔
          now.instant < claims.issuedAt.instant) ∧
        (Key.verify scheme trusted key now = .ok ⟨claims, .verified⟩ ↔
          claims.issuedAt.instant ≤ now.instant ∧ now.instant < claims.expiresAt.instant) ∧
        (Key.verify scheme trusted key now = .error (.expired claims.expiresAt) ↔
          claims.expiresAt.instant ≤ now.instant)) ∧
    (∀ a b : Timestamp, a.offset = b.offset → (a < b ↔ a.ReadsBefore b)) ∧
    (∀ (key : String) (now now' : Timestamp), now.instant = now'.instant →
      Key.verify scheme trusted key now = Key.verify scheme trusted key now') ∧
    (∀ (key key' : String) (envelope envelope' : Key.Envelope) (claims claims' : Claims)
      (now now' : Timestamp),
      Key.Envelope.Reads key envelope → Key.Envelope.Reads key' envelope' →
      envelope.IsTrusted scheme trusted → envelope'.IsTrusted scheme trusted →
      Claims.ofBytes envelope.payload = .ok claims →
      Claims.ofBytes envelope'.payload = .ok claims' →
      claims.issuedAt.instant = claims'.issuedAt.instant →
      claims.expiresAt.instant = claims'.expiresAt.instant →
      now.instant = now'.instant →
        Key.caseOf (Key.verify scheme trusted key now) =
          Key.caseOf (Key.verify scheme trusted key' now')) ∧
    ∀ (clock : Timestamp) (operations : List Operation) (before between after : List Step)
      (first second : Step) (key : String) (expiredAt : Timestamp),
      let verdict : Verdict := Key.verify scheme trusted
      let moments := runSteps verdict (Site.start clock) operations
      let custodyAfter := (Site.start clock).custody.steps verdict
      moments = before ++ first :: between ++ second :: after →
      (Site.start clock).custody.IsForward verdict moments →
      first.key? = some key → second.key? = some key →
      first.report? verdict (custodyAfter before) = some (.error (.expired expiredAt)) →
        second.report? verdict (custodyAfter (before ++ first :: between)) =
            some (.error (.expired expiredAt)) ∧
          ∀ check, (custodyAfter (before ++ first :: between)).replacement? verdict second ≠
            some (.verified check) := by
  refine ⟨?_, ?_, fun a b => Timestamp.lt_iff_readsBefore, ?_, ?_, ?_⟩
  · intro key earlier later hle
    have hcourse := Key.course_verify scheme trusted key
    refine ⟨fun cause hformat => hcourse.of_isLasting hformat (.inl rfl) later,
      fun hsignature => hcourse.of_isLasting hsignature (.inr rfl) later,
      fun license => hcourse.of_ok hle, fun expiredAt => hcourse.of_expired hle, ?_⟩
    intro validFrom hwaiting
    obtain ⟨claims, hwindow, hearly, rfl, hclaims⟩ := hcourse.of_notYetValid hwaiting
    refine ⟨claims, rfl, hearly, hwindow, ?_, ?_, ?_⟩
    · rw [hclaims]
      rcases Claims.verdictAt_cases hwindow later with ⟨-, heq⟩ | ⟨-, heq⟩ | ⟨-, heq⟩
      · exact .inl heq
      · exact .inr (.inl heq)
      · exact .inr (.inr heq)
    · intro hlasts
      rw [hclaims]
      exact Claims.verdictAt_of_covers ⟨Int.le_refl _, hlasts⟩
    · rw [hclaims]
      exact Claims.verdictAt_of_over hwindow (Int.le_refl _)
  · intro key envelope claims now hreads htrusted hclaims hwindow
    rw [Key.verify_eq_verdictAt hreads htrusted hclaims hwindow,
      Claims.verdictAt_eq_notYetValid_iff hwindow, Claims.verdictAt_eq_ok_iff hwindow,
      Claims.verdictAt_eq_expired_iff hwindow]
    exact ⟨and_iff_left rfl, and_iff_left rfl, and_iff_left rfl⟩
  · exact fun key now now' hnow => (Key.course_verify scheme trusted key).congr hnow
  · intro key key' envelope envelope' claims claims' now now' hreads hreads' htrusted htrusted'
      hclaims hclaims' hissued hexpires hnow
    exact Key.caseOf_verify_congr hreads hreads' htrusted htrusted' hclaims hclaims' hissued
      hexpires hnow
  · intro clock operations before between after first second key expiredAt verdict moments
      custodyAfter hmoments hforward hfirst hsecond hreport
    rw [hmoments] at hforward
    exact report?_of_expired (Key.course_verify scheme trusted key) hforward hfirst hsecond hreport

/-- The window of the sample in other offsets, with everything else left empty. -/
def retoldDocument : String :=
  "[\"\",\"\",\"\",\"\",\"trial\",\"pro\",\"2026-02-01T15:00:15.123456789Z\"," ++
    "\"2027-01-31T10:30:15.5-23:00\"]"

/-- The claims of the document. -/
def retoldClaims : Claims where
  id := ""
  customerId := ""
  customerName := ""
  email := ""
  licenseType := .trial
  tier := .pro
  issuedAt :=
    { Key.sampleClaims.issuedAt with
      time :=
        { Key.sampleClaims.issuedAt.time with
          hour := 15
          minute := 0
          hour_range := by decide
          minute_range := License.epoch.time.minute_range }
      offset := .utc }
  expiresAt :=
    { Key.sampleClaims.expiresAt with
      date :=
        ⟨2027, 1, 31, Key.sampleClaims.expiresAt.date.year_range, License.epoch.date.month_range,
          by decide⟩
      time := { Key.sampleClaims.expiresAt.time with hour := 10, hour_range := by decide }
      offset := ⟨-1380, by decide⟩ }
  features := ∅
  limits := Plan.Limits.empty
  metadata := ∅

/-- The document under a signature of the sample's signer. -/
def retoldEnvelope : Key.Envelope :=
  Key.signedEnvelope Ed25519.scheme Key.sampleSecret (Text.bytes retoldDocument)

theorem ofBytes_retoldDocument : Claims.ofBytes (Text.bytes retoldDocument) = .ok retoldClaims := by
  decide +kernel

theorem retoldEnvelope_isTrusted :
    retoldEnvelope.IsTrusted Ed25519.scheme Key.sampleTrusted := by
  have hhonors : Ed25519.scheme.Honors Key.sampleSecret (Text.bytes retoldDocument) := by
    decide +kernel
  exact Key.signedEnvelope_isTrusted List.mem_cons_self hhonors

/-- A key is loaded at some instant, and checked again while the clock goes on. -/
def reloading (key : String) (now later : Timestamp) : List Operation :=
  loading now key ++ [.revalidate key [.setClock later]]

/-- The key of the sample waits until its window starts. At the start it passes, and so it does when
the time is told as in the retold window, which is in the same case. Once it has expired it stays so
until the end of time: loaded at the end of its window, it is reported to be expired by a check that
the clock overtakes, too. -/
theorem verdicts_age_sample :
    ∃ (verdict : Verdict) (key retold : String) (claims : Claims),
      verdict = Key.verify Ed25519.scheme Key.sampleTrusted ∧
      key = Key.sampleEnvelope.encode ∧ retold = retoldEnvelope.encode ∧ claims = Key.sampleClaims ∧
      verdict key License.epoch = .error (.notYetValid claims.issuedAt) ∧
      (verdict key License.endOfTime = .ok ⟨claims, .verified⟩ ∨
        verdict key License.endOfTime = .error (.expired claims.expiresAt)) ∧
      verdict key retoldClaims.issuedAt = .ok ⟨claims, .verified⟩ ∧
      Key.caseOf (verdict key retoldClaims.issuedAt) =
        Key.caseOf (verdict retold claims.issuedAt) ∧
      verdict key License.endOfTime = .error (.expired claims.expiresAt) ∧
      ∃ snapshot,
        (((Site.start License.epoch).custody.steps verdict
            [.command (.setClock claims.expiresAt), .command (.load key),
              .command (.setClock License.endOfTime)]).settle verdict key snapshot).2.verdict =
          .error (.expired claims.expiresAt) := by
  obtain ⟨hages, hwindow, -, hsame, hcase, hrun⟩ := verdicts_age Ed25519.scheme Key.sampleTrusted
  have hreads : Key.Envelope.Reads Key.sampleEnvelope.encode Key.sampleEnvelope :=
    Key.Envelope.reads_encode_self _ rfl
  have hreads' : Key.Envelope.Reads retoldEnvelope.encode retoldEnvelope :=
    Key.Envelope.reads_encode_self _ rfl
  have htrusted : Key.sampleEnvelope.IsTrusted Ed25519.scheme Key.sampleTrusted :=
    Key.signedEnvelope_isTrusted List.mem_cons_self Key.honors_sampleDocument
  have hclaims : Claims.ofBytes Key.sampleEnvelope.payload = .ok Key.sampleClaims :=
    Key.ofBytes_canonicalPayload Key.canonicalPayload_sampleClaims
  obtain ⟨hwaits, -, -⟩ := hwindow _ _ _ License.epoch hreads htrusted hclaims (by decide)
  obtain ⟨-, hpasses, -⟩ :=
    hwindow _ _ _ Key.sampleClaims.issuedAt hreads htrusted hclaims (by decide)
  obtain ⟨-, -, hexpires⟩ :=
    hwindow _ _ _ Key.sampleClaims.expiresAt hreads htrusted hclaims (by decide)
  have hheld := hpasses.mpr (by decide)
  have hexpired := hexpires.mpr (Int.le_refl _)
  obtain ⟨-, -, hok, -⟩ := hages Key.sampleEnvelope.encode Key.sampleClaims.issuedAt
    License.endOfTime (by decide)
  obtain ⟨-, -, -, hstays, -⟩ := hages Key.sampleEnvelope.encode Key.sampleClaims.expiresAt
    License.endOfTime (by decide)
  refine ⟨_, _, _, _, rfl, rfl, rfl, rfl, hwaits.mpr (by decide), hok _ hheld, ?_, ?_,
    hstays _ hexpired, ?_⟩
  · rw [hsame _ retoldClaims.issuedAt Key.sampleClaims.issuedAt (by decide)]
    exact hheld
  · exact hcase _ _ _ _ _ _ _ _ hreads hreads' htrusted retoldEnvelope_isTrusted hclaims
      ofBytes_retoldDocument (by decide) (by decide) (by decide)
  · -- The moments of the run: the clock, the load, the clock again, and the end of the check.
    have hreport := hrun License.epoch
      (reloading Key.sampleEnvelope.encode Key.sampleClaims.expiresAt License.endOfTime)
      [.command (.setClock Key.sampleClaims.expiresAt)] [.command (.setClock License.endOfTime)] []
      (.command (.load Key.sampleEnvelope.encode))
      (.settle Key.sampleEnvelope.encode _) _ Key.sampleClaims.expiresAt rfl ?_ rfl rfl ?_
    · exact ⟨_, Option.some.inj hreport.1⟩
    · change IsForward _ _ [_, _, _, _]
      simp only [IsForward, clock_step]
      exact ⟨by decide, Int.le_refl _, by decide, Int.le_refl _, trivial⟩
    · rw [report?_of_key rfl]
      exact congrArg some hexpired

end Entitlement.Site
