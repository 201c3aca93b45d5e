import Entitlement.Proofs.Key.Issue
import Entitlement.Proofs.Site.Step

/-! # Where the license in force comes from

At every moment of every run the license in force is Community's own or the verdict of a check that
has been made, on a key that has been handed over, at the reading that the clock had at that check.
Which of the two it is shows in its origin and in nothing else: a grant that says of itself all that
Community says is still a grant.
-/

namespace Entitlement.Site

open Calendar Custody Grant Signature

/-- A source that is a check is a check that has been made, of a key that has been handed over, and
it gave the license in force. -/
theorem check_of_source {verdict : Verdict} {clock : Timestamp} {operations : List Operation}
    {before : List Step} {check : Check}
    (hbefore : before <+: runSteps verdict (Site.start clock) operations)
    (hsource : ((Account.start clock).steps verdict before).source = .verified check) :
    check ∈ ((Account.start clock).steps verdict before).checks ∧
      check.key ∈ operations.flatMap Operation.keys ∧
      verdict check.key check.reading =
        .ok ((Account.start clock).steps verdict before).custody.license := by
  have hright := (Account.isRight_start verdict clock).steps before
  have hgives := hright.gives
  have hmade := hright.made check hsource
  rw [hsource] at hgives
  refine ⟨hmade, ?_, hgives⟩
  rcases Account.key_of_mem_checks hmade with hstart | ⟨step, hstep, hstepKey⟩
  · exact absurd hstart List.not_mem_nil
  · exact key_runSteps_start (hbefore.subset hstep) hstepKey

/-- The license in force at any moment of a run, be it between two operations, between two commands
that overtake a check or between two runs of tasks. Community is told by its origin and then agrees
with the default in every field. Any other license is what verification gave for a key that the
operations have handed over, at the clock reading of a check that has been made; so a trusted key
accepts its payload, and its window contains that reading. Where no key is trusted, it is Community
throughout. -/
theorem license_provenance (scheme : Scheme) (trusted : Key.TrustSet) (clock : Timestamp)
    (operations : List Operation) :
    let verdict : Verdict := Key.verify scheme trusted
    let moments := runSteps verdict (Site.start clock) operations
    ((Site.start clock).run verdict operations).1.custody =
        ((Account.start clock).steps verdict moments).custody ∧
      ∀ before, before <+: moments →
        let account := (Account.start clock).steps verdict before
        let license := account.custody.license
        ((license.isCommunity = true ∧ account.source = .community ∧ license = .community) ∨
          (license.isCommunity = false ∧
            ∃ check ∈ account.checks, account.source = .verified check ∧
              check.key ∈ operations.flatMap Operation.keys ∧
              Key.verify scheme trusted check.key check.reading = .ok license ∧
              ∃ envelope, Key.Envelope.Reads check.key envelope ∧
                envelope.IsTrusted scheme trusted ∧
                Claims.ofBytes envelope.payload = .ok license.claims ∧
                license.claims.Covers check.reading)) ∧
        (trusted = [] → license = .community) := by
  intro verdict moments
  refine ⟨(custody_account verdict clock operations).symm, ?_⟩
  intro before hbefore account license
  have hright : account.IsRight verdict := (Account.isRight_start verdict clock).steps before
  have hgives := hright.gives
  -- The books are right at every moment, so the source tells what the license is.
  cases hsource : account.source with
  | community =>
      rw [hsource] at hgives
      have hlicense : license = .community := hgives
      refine ⟨.inl ⟨?_, rfl, hlicense⟩, fun _ => hlicense⟩
      rw [hlicense]
      rfl
  | verified check =>
      obtain ⟨hmade, hkey, hverify⟩ := check_of_source hbefore hsource
      obtain ⟨envelope, claims, hreads, htrusted, hclaims, hcovers, hlicense⟩ :=
        Key.verify_eq_ok_iff.mp hverify
      have hclaimed : license = ⟨claims, .verified⟩ := hlicense
      refine ⟨.inr ⟨Key.isCommunity_of_verify hverify, check, hmade, rfl, hkey, hverify, envelope,
        hreads, htrusted, ?_, ?_⟩, ?_⟩
      · rw [hclaimed]
        exact hclaims
      · rw [hclaimed]
        exact hcovers
      · rintro rfl
        obtain ⟨-, signer, hsigner, -⟩ := htrusted
        exact absurd hsigner List.not_mem_nil

/-- The sample is in force once it has been loaded, and the one check that was made gave it. -/
theorem license_provenance_sample :
    ∃ verdict key held, verdict = Key.verify Ed25519.scheme Key.sampleTrusted ∧
      key = Key.sampleEnvelope.encode ∧
      held = account verdict License.epoch (loading Key.sampleClaims.issuedAt key) ∧
      held.custody.license.isCommunity = false ∧
      ∃ check ∈ held.checks, held.source = .verified check ∧
        verdict check.key check.reading = .ok held.custody.license := by
  refine ⟨_, _, _, rfl, rfl, rfl, ?_⟩
  have hstart := Key.verify_sampleEnvelope_issuedAt
  have hsource := source_account_loading License.epoch hstart
  obtain ⟨-, hmoments⟩ := license_provenance Ed25519.scheme Key.sampleTrusted License.epoch
    (loading Key.sampleClaims.issuedAt Key.sampleEnvelope.encode)
  obtain ⟨hlicense, -⟩ := hmoments _ (List.prefix_refl _)
  rw [← account] at hlicense
  rcases hlicense with ⟨-, hcommunity, -⟩ | ⟨hgrant, check, hcheck, hgave, -, hverify, -⟩
  · cases hsource.symm.trans hcommunity
  · exact ⟨hgrant, check, hcheck, hgave, hverify⟩

end Entitlement.Site
