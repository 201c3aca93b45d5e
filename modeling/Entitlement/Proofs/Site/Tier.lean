import Entitlement.Proofs.Custody.Tier
import Entitlement.Proofs.Site.Delivery
import Entitlement.Proofs.Site.Provenance

/-! # Changes of the tier

Those who follow the events of a site take the tier of the last event for the one in force. They are
right as long as no id is used for two tiers. Where a key is issued again under the id of the
license in force but for another tier, and is not loaded but checked, the tier changes and nobody is
told.
-/

namespace Entitlement.Site

open Calendar Custody Grant Plan Signature

variable {verdict : Verdict}

/-! ## One tier for each id -/

/-- Licenses of some keys that have the same id have the same tier. -/
def OneTierPerId (verdict : Verdict) (keys : List String) : Prop :=
  ∀ first ∈ keys, ∀ second ∈ keys, ∀ reading reading' license license',
    verdict first reading = .ok license → verdict second reading' = .ok license' →
      license.id = license'.id → license.tier = license'.tier

/-- With one tier for each id a check never puts another tier in force under the same id. -/
theorem OneTierPerId.not_retiers {clock : Timestamp} {operations : List Operation}
    (hone : OneTierPerId verdict (operations.flatMap Operation.keys)) {before after : List Step}
    {step : Step}
    (hmoments : runSteps verdict (Site.start clock) operations = before ++ step :: after) :
    ¬ Retiers verdict ((Custody.start clock).steps verdict before) step := by
  intro hretiers
  cases step with
  | command command => cases hretiers
  | settle key snapshot =>
      obtain ⟨license, hverdict, hgrant, hid, htier⟩ := hretiers
      have hbefore : before <+: runSteps verdict (Site.start clock) operations :=
        ⟨_, hmoments.symm⟩
      have hcustody : ((Account.start clock).steps verdict before).custody =
          (Custody.start clock).steps verdict before := Account.custody_steps _ _ _
      have hstep : .settle key snapshot ∈ runSteps verdict (Site.start clock) operations := by
        rw [hmoments]
        exact List.mem_append_right _ List.mem_cons_self
      have hkey : key ∈ operations.flatMap Operation.keys := key_runSteps_start hstep rfl
      -- The license in force is no default, so a key that was handed over gave it.
      cases hsource : ((Account.start clock).steps verdict before).source with
      | community =>
          have hgives := ((Account.isRight_start verdict clock).steps before).gives
          rw [hsource, hcustody] at hgives
          have hcommunity : ((Custody.start clock).steps verdict before).license = .community :=
            hgives
          rw [hcommunity] at hgrant
          cases hgrant
      | verified check =>
          obtain ⟨-, hheld, hgave⟩ := check_of_source hbefore hsource
          rw [hcustody] at hgave
          exact htier (hone key hkey check.key hheld _ _ _ _ hverdict hgave hid)

/-- The license of a key is the same at any two instants at which there is one. -/
theorem license_unique {scheme : Scheme} {trusted : Key.TrustSet} {key : String}
    {now later : Timestamp} {license license' : License}
    (hnow : Key.verify scheme trusted key now = .ok license)
    (hlater : Key.verify scheme trusted key later = .ok license') : license = license' := by
  obtain ⟨envelope, claims, hreads, -, hclaims, -, rfl⟩ := Key.verify_eq_ok_iff.mp hnow
  obtain ⟨envelope', claims', hreads', -, hclaims', -, rfl⟩ := Key.verify_eq_ok_iff.mp hlater
  rw [← Key.Envelope.decode_eq_ok_iff] at hreads hreads'
  obtain rfl := Except.ok.inj (hreads.symm.trans hreads')
  obtain rfl := Except.ok.inj (hclaims.symm.trans hclaims')
  rfl

/-! ## What is told of the tier -/

/-- How far the last event tells the tier in force. Whatever is done with a site, a change of the
tier is told, and the last event tells the tier in force then, unless a check puts another tier in
force under the id that is in force already and nothing is told from then on: of that very step
nothing is told. Likewise a receiver that has never been given a mark knows the tier in force from
the last event it was given. Where every id stands for one tier, the last event of all always tells
the tier in force. -/
theorem tier_told (scheme : Scheme) (trusted : Key.TrustSet) (clock : Timestamp)
    (operations : List Operation) :
    let verdict : Verdict := Key.verify scheme trusted
    let site := ((Site.start clock).run verdict operations).1
    (∀ operation,
      let after := (site.perform verdict operation).1
      ¬ site.custody.LeavesUnheard verdict (operationSteps verdict site operation) →
        ∃ told, after.custody.log = site.custody.log ++ told ∧
          (after.custody.license.tier ≠ site.custody.license.tier →
            ∃ last, told.getLast? = some last ∧ last.tier = after.custody.license.tier)) ∧
    (∀ key license, verdict key site.custody.clock = .ok license →
      site.custody.license.isCommunity = false → license.id = site.custody.license.id →
        let after := (site.perform verdict (.revalidate key [])).1
        after.custody.log = site.custody.log ∧ after.custody.license = license) ∧
    (∀ receiver life, .subscribe receiver ∉ life →
      let born := (site.perform verdict (.subscribe receiver)).1
      let now := (born.run verdict life).1
      let given := (handouts receiver life (born.run verdict life).2).flatten
      ¬ site.custody.LeavesUnheard verdict (runSteps verdict born life) →
        ∀ last, (now.perform verdict (.drain receiver)).2 = .deliveries last →
          (∀ lost, Delivery.lagged lost ∉ given ++ last) →
            toldTier site.custody.license.tier ((given ++ last).filterMap Delivery.event?) =
              now.custody.license.tier) ∧
    (OneTierPerId verdict (operations.flatMap Operation.keys) →
      toldTier .free site.custody.log = site.custody.license.tier) := by
  intro verdict site
  refine ⟨?_, ?_, ?_, ?_⟩
  · intro operation after hheard
    obtain ⟨told, hlog, htier⟩ := steps_told hheard
    rw [← custody_perform] at hlog htier
    refine ⟨told, hlog, fun hchanged => ?_⟩
    obtain ⟨last, hlast, htold⟩ := toldTier_of_getLast? (htier ▸ hchanged)
    exact ⟨last, hlast, htold.trans htier⟩
  · intro key license hverdict hgrant hid after
    have hcustody : after.custody = site.custody.renew license := by
      change (site.custody.settle verdict key site.custody.snapshot).1 = _
      rw [settle_of_ok hverdict]
    rw [hcustody, renew_of_silent hgrant hid]
    exact ⟨rfl, rfl⟩
  · intro receiver life hlife born now given hheard last hlast hmarks
    obtain ⟨told, hlog, htier⟩ := steps_told hheard
    have hcustody : now.custody = site.custody.steps verdict (runSteps verdict born life) :=
      custody_run verdict born life
    have hreached : site.reached? (.subscribe receiver) = some (.receiver receiver) := rfl
    have hplace : born.place? (.receiver receiver) = some born.endOfLog :=
      place?_of_reached? verdict hreached
    have hall := given_of_not_lagged hlife hplace (Nat.le_refl _) hlast hmarks
    have htold : (given ++ last).filterMap Delivery.event? = told := by
      refine hall.trans ?_
      change now.custody.log.drop site.custody.log.length = told
      rw [hcustody, hlog, List.drop_left]
    rw [htold, htier, hcustody]
  · intro hone
    have hheard : ¬ (Custody.start clock).LeavesUnheard verdict
        (runSteps verdict (Site.start clock) operations) := by
      rintro ⟨before, step, rest, hmoments, hretiers, -⟩
      exact hone.not_retiers hmoments hretiers
    obtain ⟨told, hlog, htier⟩ := steps_told hheard
    have hcustody : site.custody = (Custody.start clock).steps verdict
        (runSteps verdict (Site.start clock) operations) := custody_run verdict (Site.start clock) _
    rw [hcustody, hlog]
    exact htier

/-- The sample is loaded, and all that is told from the start on tells its tier. -/
theorem tier_told_sample :
    ∃ verdict key site, verdict = Key.verify Ed25519.scheme Key.sampleTrusted ∧
      key = Key.sampleEnvelope.encode ∧
      site = ((Site.start License.epoch).run verdict (loading Key.sampleClaims.issuedAt key)).1 ∧
      OneTierPerId verdict [key] ∧ site.custody.license.tier = .pro ∧
      toldTier .free site.custody.log = .pro := by
  have hstart := Key.verify_sampleEnvelope_issuedAt
  have hone : OneTierPerId (Key.verify Ed25519.scheme Key.sampleTrusted)
      [Key.sampleEnvelope.encode] := by
    intro first hfirst second hsecond reading reading' license license' hgave hgave' _
    rw [List.mem_singleton.mp hfirst] at hgave
    rw [List.mem_singleton.mp hsecond] at hgave'
    rw [license_unique hgave hgave']
  have hlicense : ((Site.start License.epoch).run (Key.verify Ed25519.scheme Key.sampleTrusted)
      (loading Key.sampleClaims.issuedAt Key.sampleEnvelope.encode)).1.custody.license =
        ⟨Key.sampleClaims, .verified⟩ := by
    rw [custody_run_loading License.epoch hstart]
    rfl
  refine ⟨_, _, _, rfl, rfl, rfl, hone, ?_, ?_⟩
  · rw [hlicense]
    rfl
  · obtain ⟨-, -, -, htold⟩ := tier_told Ed25519.scheme Key.sampleTrusted License.epoch
      (loading Key.sampleClaims.issuedAt Key.sampleEnvelope.encode)
    rw [hlicense] at htold
    exact htold hone

/-! ## One id with two tiers -/

/-- The claims of the sample, issued again for a higher tier. -/
def reissuedClaims : Claims :=
  { Key.sampleClaims with tier := .business }

/-- The members of the claims that are issued again, in the order of their canonical document. -/
def reissuedMembers : List Json.Member :=
  [("customer_id", "\"c\""), ("customer_name", "\"é\""), ("email", "\"\""),
    ("expires_at", "\"2027-02-01T09:30:15.5Z\""), ("features", "[\"scim\"]"),
    ("id", "\"a\\\"b\\n\\u0001𝄞\""), ("issued_at", "\"2026-02-01T09:30:15.123456789-05:30\""),
    ("limits", "\x7b\"seats\":9007199254740991\x7d"), ("metadata", "\x7b\"\\\"\":\"\\t\"\x7d"),
    ("tier", "\"business\""), ("type", "\"trial\"")]

theorem canonicalPayload_reissuedClaims :
    Key.canonicalPayload reissuedClaims = .ok (Text.bytes (Json.object reissuedMembers)) := by
  have hlimits : Claims.writeLimits Json.canonicalOrder reissuedClaims.limits =
      "\x7b\"seats\":9007199254740991\x7d" := Key.writeLimits_sampleClaims
  have hmetadata : Claims.writeMetadata Json.canonicalOrder reissuedClaims.metadata =
      "\x7b\"\\\"\":\"\\t\"\x7d" := Key.writeMetadata_sampleClaims
  refine Key.canonicalPayload_of_ordered "2026-02-01T09:30:15.123456789-05:30"
    "2027-02-01T09:30:15.5Z" reissuedMembers (by decide) (by decide) (by decide) (by decide) ?_
    (by decide) rfl
  rw [Claims.members, hlimits, hmetadata]
  decide

/-- The envelope of the claims that are issued again. -/
def reissuedEnvelope : Key.Envelope :=
  Key.signedEnvelope Ed25519.scheme Key.sampleSecret (Text.bytes (Json.object reissuedMembers))

theorem verify_reissuedEnvelope :
    Key.verify Ed25519.scheme Key.sampleTrusted reissuedEnvelope.encode
      Key.sampleClaims.issuedAt = .ok ⟨reissuedClaims, .verified⟩ := by
  have hhonors : Ed25519.scheme.Honors Key.sampleSecret
      (Text.bytes (Json.object reissuedMembers)) := by
    decide +kernel
  have hstarted : reissuedClaims.issuedAt ≤ Key.sampleClaims.issuedAt := by decide
  exact (Key.verify_signedEnvelope canonicalPayload_reissuedClaims hhonors List.mem_cons_self
    hstarted).trans (if_neg (by decide))

section Reissue

variable {now : Timestamp} {key reissued : String} {license license' : License}

/-- A receiver subscribes, a key is loaded, and the receiver drains. -/
def followed (receiver : String) (now : Timestamp) (key : String) : List Operation :=
  .subscribe receiver :: loading now key ++ [.drain receiver]

theorem custody_followed (clock : Timestamp) (receiver : String)
    (hverdict : verdict key now = .ok license) :
    ((Site.start clock).run verdict (followed receiver now key)).1.custody =
      ({ Custody.start clock with clock := now } : Custody).announce license := by
  have hsteps : runSteps verdict (Site.start clock) (followed receiver now key) =
      runSteps verdict (Site.start clock) (loading now key) := rfl
  rw [custody_run, hsteps]
  exact (custody_run verdict (Site.start clock) (loading now key)).symm.trans
    (custody_run_loading clock hverdict)

theorem place?_followed (clock : Timestamp) (receiver : String) :
    ((Site.start clock).run verdict (followed receiver now key)).1.place? (.receiver receiver) =
      some ((Site.start clock).run verdict (followed receiver now key)).1.endOfLog := by
  have hreached : (Site.start clock).reached? (.subscribe receiver) = some (.receiver receiver) :=
    rfl
  have hsubscribed := place?_of_reached? verdict hreached
  have hothers : ∀ operation ∈ loading now key,
      operation.follower? ≠ some (.receiver receiver) := by
    simp [loading, Operation.follower?]
  exact place?_of_reached? verdict (reached?_drain ((place?_run hothers).trans hsubscribed))

/-- A check that puts another license in force under the same id gives the receiver nothing. -/
theorem reissue_untold (clock : Timestamp) (receiver : String)
    (hverdict : verdict key now = .ok license) (hreissued : verdict reissued now = .ok license')
    (hgrant : license.isCommunity = false) (hid : license'.id = license.id) :
    let site := ((Site.start clock).run verdict (followed receiver now key)).1
    let after := (site.perform verdict (.revalidate reissued [])).1
    site.custody.license = license ∧ after.custody.license = license' ∧
      after.custody.log = site.custody.log ∧
      (after.perform verdict (.drain receiver)).2 = .deliveries [] := by
  intro site after
  have hcustody : site.custody = _ := custody_followed clock receiver hverdict
  have hlicense : site.custody.license = license := by rw [hcustody]; rfl
  have hclock : site.custody.clock = now := by rw [hcustody]; rfl
  have hafter : after.custody = site.custody.install license' := by
    change (site.custody.settle verdict reissued site.custody.snapshot).1 = _
    rw [settle_of_ok (hclock ▸ hreissued), renew_of_silent (hlicense ▸ hgrant) (hlicense ▸ hid)]
  have hlog : after.custody.log = site.custody.log := by rw [hafter]; rfl
  refine ⟨hlicense, by rw [hafter]; rfl, hlog, ?_⟩
  have hothers : ∀ operation ∈ [Operation.revalidate reissued []],
      operation.follower? ≠ some (.receiver receiver) := by
    simp [Operation.follower?]
  exact outcome_drain_since (place?_followed clock receiver) hothers
    (hlog.trans (List.append_nil _).symm)

end Reissue

/-- The sample is in force, and the key that was issued again is checked. The tier in force changes,
and a receiver who has followed from the start is given nothing. -/
theorem reissue_changes_tier_untold :
    ∃ verdict site after, verdict = Key.verify Ed25519.scheme Key.sampleTrusted ∧
      site = ((Site.start License.epoch).run verdict
        (followed "a" Key.sampleClaims.issuedAt Key.sampleEnvelope.encode)).1 ∧
      after = (site.perform verdict (.revalidate reissuedEnvelope.encode [])).1 ∧
      site.custody.license.tier = .pro ∧ after.custody.license.tier = .business ∧
      after.custody.log = site.custody.log ∧
      (after.perform verdict (.drain "a")).2 = .deliveries [] := by
  obtain ⟨hbefore, hafter, htold⟩ := reissue_untold License.epoch "a"
    Key.verify_sampleEnvelope_issuedAt verify_reissuedEnvelope rfl rfl
  refine ⟨_, _, _, rfl, rfl, rfl, ?_, ?_, htold⟩
  · rw [hbefore]
    rfl
  · rw [hafter]
    rfl

end Entitlement.Site
