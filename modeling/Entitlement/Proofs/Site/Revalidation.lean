import Entitlement.Proofs.Custody.Overtaking
import Entitlement.Proofs.Key.Issue
import Entitlement.Proofs.Site.Step

/-! # No newer license is lost to a check

A check may be overtaken by anything that can be asked of a custody. Whatever came in between, a key
that holds is renewed as if the check had only just begun, and a key that no longer holds takes away
the license it had put in force itself, if that is still there, and nothing else.
-/

namespace Entitlement.Site

open Calendar Custody Grant Signature

/-- What a check of a key comes to that is overtaken by commands, at a site on which anything may
have happened before. If the key holds by then, its license is renewed, and all is as if the
commands had come before the whole check. If not, what the commands leave in force stays there when
Community was in force at the snapshot or the license has been replaced since, be it by an equal
one; and Community replaces it when the key had put it in force and nothing has replaced it since.
The events name the license of the snapshot and the tier in force at the end. -/
theorem revalidate_overtaken (scheme : Scheme) (trusted : Key.TrustSet) (clock : Timestamp)
    (operations : List Operation) (key : String) (commands : List Command) :
    let verdict : Verdict := Key.verify scheme trusted
    let held := ((Site.start clock).run verdict operations).1.custody
    let left := (held.executeAll verdict commands).1
    let result := held.revalidateDuring verdict key commands
    (∀ license, verdict key left.clock = .ok license →
      result.2.2 = .renewed license ∧ result.1.license = license ∧
        result.1 = (left.revalidate verdict key).1 ∧
        (left.revalidate verdict key).2 = .renewed license) ∧
    ∀ cause, verdict key left.clock = .error cause →
      (held.license.isCommunity = true ∨
          held.isReplacedBy verdict (commands.map .command) = true →
        result.2.2 = .unchanged cause ∧ result.1.license = left.license ∧
          result.1.installation = left.installation ∧
          result.1.log = left.log ++
            [.revalidationFailed held.license.id result.1.license.tier cause.kind]) ∧
      ∀ reading, (account verdict clock operations).source = .verified ⟨key, reading⟩ →
        held.isReplacedBy verdict (commands.map .command) = false →
          result.2.2 = .demoted cause ∧ result.1.license = .community ∧
            result.1.log = left.log ++
              [.revalidationFailed held.license.id result.1.license.tier cause.kind,
                .licenseDemoted held.license.id result.1.license.tier] := by
  intro verdict held left result
  refine ⟨?_, fun cause hverdict => ⟨?_, ?_⟩⟩
  · intro license hverdict
    have hresult : result = ((left.revalidate verdict key).1, _, .renewed license) :=
      revalidateDuring_of_ok hverdict
    have hrenewed : left.revalidate verdict key = (left.renew license, .renewed license) :=
      settle_of_ok hverdict
    rw [hresult, hrenewed]
    exact ⟨rfl, (left.renew_installs license).1, rfl, rfl⟩
  · intro hovertaken
    have hresult := revalidateDuring_of_overtaken hverdict hovertaken
    change result = _ at hresult
    rw [hresult]
    exact ⟨rfl, rfl, rfl, rfl⟩
  · intro reading hsource hkept
    -- The books of the run tell that the license at the snapshot was a grant.
    have hright := (Account.isRight_start verdict clock).steps
      (runSteps verdict (.start clock) operations)
    have hgives := hright.gives
    change (account verdict clock operations).source.Gives verdict
      (account verdict clock operations).custody.license at hgives
    rw [hsource, custody_account] at hgives
    have hgrant : held.license.isCommunity = false := Key.isCommunity_of_verify hgives
    have hresult := revalidateDuring_of_not_overtaken hverdict hgrant hkept
    change result = _ at hresult
    rw [hresult]
    refine ⟨rfl, rfl, ?_⟩
    exact List.append_assoc _ _ _

/-- The sample is renewed if nothing happens, left alone if it is loaded once more before it
expires, and taken away if it expires. -/
theorem revalidate_overtaken_sample :
    ∃ verdict key held, verdict = Key.verify Ed25519.scheme Key.sampleTrusted ∧
      key = Key.sampleEnvelope.encode ∧
      held = ((Site.start License.epoch).run verdict
        (loading Key.sampleClaims.issuedAt key)).1.custody ∧
      (held.revalidateDuring verdict key []).2.2 = .renewed ⟨Key.sampleClaims, .verified⟩ ∧
      (held.revalidateDuring verdict key [.load key, .setClock License.endOfTime]).2.2 =
        .unchanged (.expired Key.sampleClaims.expiresAt) ∧
      (held.revalidateDuring verdict key [.setClock License.endOfTime]).2.2 =
        .demoted (.expired Key.sampleClaims.expiresAt) := by
  refine ⟨_, _, _, rfl, rfl, rfl, ?_⟩
  have hstart := Key.verify_sampleEnvelope_issuedAt
  have hend := Key.verify_sampleEnvelope_endOfTime
  have hheld := custody_run_loading License.epoch hstart
  have hsource := source_account_loading License.epoch hstart
  have hspec := revalidate_overtaken Ed25519.scheme Key.sampleTrusted License.epoch
    (loading Key.sampleClaims.issuedAt Key.sampleEnvelope.encode) Key.sampleEnvelope.encode
  -- The argument needs only what the verdicts are, and must not evaluate them.
  generalize Key.verify Ed25519.scheme Key.sampleTrusted = verdict at *
  generalize Key.sampleEnvelope.encode = key at *
  generalize Key.sampleClaims = claims at *
  generalize License.endOfTime = later at *
  dsimp only at hspec
  rw [hheld] at hspec ⊢
  refine ⟨?_, ?_, ?_⟩
  · exact ((hspec []).1 _ hstart).1
  · refine (((hspec [.load key, .setClock later]).2 _ ?_).1 (.inr ?_)).1
    · rw [executeAll_eq_steps]
      exact hend
    · exact isReplacedBy_load hstart _
  · exact (((hspec [.setClock later]).2 _ hend).2 _ hsource rfl).1

end Entitlement.Site
