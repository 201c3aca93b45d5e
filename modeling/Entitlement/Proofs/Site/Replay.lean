import Entitlement.Proofs.Custody.Overtaking
import Entitlement.Proofs.Custody.Replay
import Entitlement.Proofs.Key.Issue
import Entitlement.Proofs.Site.Step

/-! # The events of a site

A listener who was there when a site started is told enough to know the license in force at any
time.
-/

namespace Entitlement.Site

open Calendar Custody Grant Signature

/-- Nothing has been told at the start. -/
theorem drop_endOfLog_start (clock : Timestamp) (log : List Event) :
    log.drop (Site.start clock).endOfLog = log :=
  rfl

/-- Whatever is done with a site, those who have followed its events from the start know the license
in force: they take it for the Community default exactly if it is, and else they know its id. An
event of a failed check tells the tier that was in force once the check had been settled, and each
demotion directly follows the failed check of its license. -/
theorem replay_run (scheme : Scheme) (trusted : Key.TrustSet) (clock : Timestamp)
    (operations : List Operation) :
    let verdict : Verdict := Key.verify scheme trusted
    let site := ((Site.start clock).run verdict operations).1
    let told := site.custody.log.drop (Site.start clock).endOfLog
    replay told = Standing.ofLicense site.custody.license ∧
      (replay told = .community ↔ site.custody.license = .community) ∧
      FailuresSettled verdict (.start clock) (runSteps verdict (.start clock) operations) told ∧
      DemotionsFollow told := by
  intro verdict site told
  have hgrants : OnlyGrants verdict := onlyGrants_verify scheme trusted
  obtain ⟨events, hlog, hknown, hfollow, hsettled⟩ :=
    steps_tell hgrants (runSteps verdict (.start clock) operations) (Custody.start clock)
  have hcustody : site.custody = _ := custody_run verdict (Site.start clock) operations
  have htold : told = events := by
    refine (drop_endOfLog_start clock site.custody.log).trans ?_
    rw [hcustody]
    exact hlog
  have hreplay : replay told = Standing.ofLicense site.custody.license := by
    rw [htold, hcustody]
    exact hknown
  rw [htold] at hreplay ⊢
  refine ⟨hreplay, ?_, hsettled, hfollow⟩
  rw [hreplay, Standing.ofLicense_eq_community_iff]
  constructor
  · intro hcommunity
    exact eq_community_of_isCommunity hgrants clock operations hcommunity
  · intro hlicense
    rw [hlicense]
    rfl

section Expiry

variable {verdict : Verdict} {now later : Timestamp} {key : String} {license : License}
  {cause : Key.VerificationError}

/-- What is told when a key is loaded and does not hold any longer by the end of a check. -/
theorem log_run_expiring (clock : Timestamp) (hstart : verdict key now = .ok license)
    (hend : verdict key later = .error cause) (hgrant : license.isCommunity = false) :
    ((Site.start clock).run verdict
        (loading now key ++ [.revalidate key [.setClock later]])).1.custody.log =
      [.inEffect license, .revalidationFailed license.id .free cause.kind,
        .licenseDemoted license.id .free] := by
  have hheld := custody_run_loading clock hstart
  rw [run_append]
  change (((Site.start clock).run verdict (loading now key)).1.custody.revalidateDuring verdict key
    [.setClock later]).1.log = _
  rw [hheld, revalidateDuring_of_not_overtaken hend hgrant rfl]
  rfl

end Expiry

/-- The sample is loaded and expires while it is checked. The events say so one by one, and in the
end they leave Community in force. -/
theorem replay_run_sample :
    ∃ verdict key site, verdict = Key.verify Ed25519.scheme Key.sampleTrusted ∧
      key = Key.sampleEnvelope.encode ∧
      site = ((Site.start License.epoch).run verdict (loading Key.sampleClaims.issuedAt key ++
        [.revalidate key [.setClock License.endOfTime]])).1 ∧
      site.custody.log =
        [.licenseLoaded Key.sampleClaims.id Key.sampleClaims.tier,
          .revalidationFailed Key.sampleClaims.id .free .expired,
          .licenseDemoted Key.sampleClaims.id .free] ∧
      replay site.custody.log = .community ∧ site.custody.license = .community := by
  refine ⟨_, _, _, rfl, rfl, rfl, ?_⟩
  have hstart := Key.verify_sampleEnvelope_issuedAt
  have hend := Key.verify_sampleEnvelope_endOfTime
  have hlog := log_run_expiring License.epoch hstart hend rfl
  have hspec := replay_run Ed25519.scheme Key.sampleTrusted License.epoch
    (loading Key.sampleClaims.issuedAt Key.sampleEnvelope.encode ++
      [.revalidate Key.sampleEnvelope.encode [.setClock License.endOfTime]])
  have hcommunity := hspec.2.1
  rw [drop_endOfLog_start, hlog] at hcommunity
  rw [hlog]
  exact ⟨rfl, rfl, hcommunity.mp rfl⟩

end Entitlement.Site
