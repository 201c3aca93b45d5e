import Mathlib.Data.List.TFAE
import Entitlement.Proofs.Custody.Denial
import Entitlement.Proofs.Http.License
import Entitlement.Proofs.Site.Audit
import Entitlement.Proofs.Text.Order

/-! # All answers about features agree

A running site is asked about features in many ways: whether the license has one, whether one may be
used, by a request at a gate, or for the document that lists them all. The answers go different ways
through the registry, one name at a time or all names of a tier at once, and yet they agree.
-/

namespace Entitlement.Site

open Calendar Custody Grant Plan Signature

variable {verdict : Verdict} {site : Site}

/-- Whoever asks for the license in force is shown some names as its features. -/
def Shows (verdict : Verdict) (site : Site) (names : List String) : Prop :=
  ∀ (request : Http.Request) (feed : Option String),
    request.method = "GET" → request.path = "/api/license" →
      ∃ response document, (site.perform verdict (.request request feed)).2 = .response response ∧
        response.status = 200 ∧ response.body = .complete document ∧
          Json.HoldsNames document "features" names

/-- What is shown is the list of the features that are available. -/
theorem Shows.eq_effectiveFeatures {names : List String} (hshows : site.Shows verdict names) :
    names = site.custody.license.effectiveFeatures.toList := by
  let request : Http.Request := ⟨"GET", "/api/license", []⟩
  have hmethod : request.method = "GET" := rfl
  obtain ⟨response, document, hresponse, hstatus, hbody, hnames⟩ := hshows request none hmethod rfl
  cases (outcome_request _ _).symm.trans hresponse
  obtain ⟨hstatus', hbody'⟩ := Http.respond_license site.custody.license hmethod rfl
  have hdocument := Http.licenseDocument_of_answer (hstatus'.symm.trans hstatus)
    (hbody'.symm.trans hbody)
  exact (Http.holdsNames_licenseDocument hdocument).eq hnames

theorem shows_effectiveFeatures (hgenuine : site.custody.license.IsGenuine) :
    site.Shows verdict site.custody.license.effectiveFeatures.toList := by
  intro request feed hmethod hpath
  obtain ⟨document, hdocument⟩ := Http.exists_licenseDocument hgenuine.isWritable
  have hanswer : Http.Route.license.answer site.custody.license = .json 200 document := by
    simp only [Http.Route.answer, hdocument]
  obtain ⟨hstatus, hbody⟩ := Http.respond_license site.custody.license hmethod hpath
  rw [hanswer] at hstatus hbody
  exact ⟨_, document, outcome_request request feed, hstatus, hbody,
    Http.holdsNames_licenseDocument hdocument⟩

theorem reply_hasFeature_iff {feature : Feature} :
    (site.perform verdict (.command (.hasFeature feature))).2 = .reply (.truth true) ↔
      site.custody.license.hasFeature feature = true := by
  change Outcome.reply (.truth _) = _ ↔ _
  simp

theorem reply_ensureFeature_iff {feature : Feature} :
    (site.perform verdict (.command (.ensureFeature feature))).2 = .reply .granted ↔
      site.custody.license.hasFeature feature = true := by
  have hreply : (site.perform verdict (.command (.ensureFeature feature))).2 =
      .reply (site.custody.replyUnder verdict site.custody.license (.ensureFeature feature)) := rfl
  rw [hreply, Outcome.reply.injEq, granted_feature_iff]

/-- Whatever has happened to a site, the license in force is genuine. -/
theorem isGenuine_run (scheme : Scheme) (trusted : Key.TrustSet) (clock : Timestamp)
    (operations : List Operation) :
    ((Site.start clock).run (Key.verify scheme trusted)
      operations).1.custody.license.IsGenuine := by
  rw [← custody_account]
  have hright : (account (Key.verify scheme trusted) clock operations).IsRight _ :=
    (Account.isRight_start _ clock).steps _
  have hgives := hright.gives
  cases hsource : (account (Key.verify scheme trusted) clock operations).source with
  | community =>
      rw [hsource] at hgives
      exact .inl hgives
  | verified check =>
      rw [hsource] at hgives
      exact .inr ⟨scheme, trusted, check.key, check.reading, hgives⟩

/-- All ways to ask a site about a feature agree, whatever license is in force: whether the license
has it, whether it may be used, whether a request gets through at its gate, whether it is among the
features that are available, and whether it is among those that are shown. What is shown to whoever
asks for the license is in the order of the bytes and without repetition, and every genuine license
is shown. A higher tier and more grants by name take no feature away; and a name outside the
registry is available exactly if it is granted, whatever the tier is. -/
theorem entitlements_agree (verdict : Verdict) (site : Site) :
    let license := site.custody.license
    (∀ feature : Feature,
      [(site.perform verdict (.command (.hasFeature feature))).2 = .reply (.truth true),
        (site.perform verdict (.command (.ensureFeature feature))).2 = .reply .granted,
        Http.GetsThrough (fun answer => (site.perform verdict (.gated feature answer)).2),
        license.effectiveFeatures.has feature = true,
        license.hasFeature feature = true].TFAE) ∧
    (∀ names, site.Shows verdict names →
      (names.Pairwise fun a b => Text.bytes a < Text.bytes b) ∧
        ∀ feature, feature ∈ names ↔ license.hasFeature feature = true) ∧
    (license.IsGenuine → ∃ names, site.Shows verdict names) ∧
    (∀ other : License, other.tier.includes license.tier = true →
      (∀ name, license.claims.features.has name = true → other.claims.features.has name = true) →
        ∀ feature, license.hasFeature feature = true → other.hasFeature feature = true) ∧
    ∀ feature, feature ∉ Feature.registry.map Prod.fst → ∀ tier,
      (license.atTier tier).hasFeature feature = true ↔
        license.claims.features.has feature = true := by
  intro license
  refine ⟨fun feature => ?_, fun names hshows => ?_, fun hgenuine => ?_, ?_, ?_⟩
  · apply List.tfae_of_forall (license.hasFeature feature = true)
    simp only [List.forall_mem_cons]
    exact ⟨reply_hasFeature_iff, reply_ensureFeature_iff, getsThrough_gated,
      License.has_effectiveFeatures_iff, trivial, fun _ hnone => absurd hnone List.not_mem_nil⟩
  · rw [hshows.eq_effectiveFeatures]
    exact ⟨license.effectiveFeatures.isAscending.imp Text.bytes_lt, fun feature => by
      rw [← License.has_effectiveFeatures_iff, NameSet.has, List.contains_iff_mem]⟩
  · exact ⟨_, shows_effectiveFeatures hgenuine⟩
  · exact fun other htier hgrants feature => License.hasFeature_mono htier hgrants
  · intro feature hname tier
    rw [License.hasFeature_of_unregistered (Feature.minimumTier_eq_none_iff.mpr hname)]
    rfl

/-- The sample grants the Pro tier a feature of the Enterprise tier. -/
theorem entitlements_agree_sample :
    ∃ verdict key site, verdict = Key.verify Ed25519.scheme Key.sampleTrusted ∧
      key = Key.sampleEnvelope.encode ∧
      site = ((Site.start License.epoch).run verdict (loading Key.sampleClaims.issuedAt key)).1 ∧
      site.custody.license = ⟨Key.sampleClaims, .verified⟩ ∧
      (∃ names, site.Shows verdict names ∧ "scim" ∈ names ∧ "webhooks" ∈ names ∧ "saml" ∉ names) ∧
      Http.GetsThrough (fun answer => (site.perform verdict (.gated "scim" answer)).2) ∧
      (site.perform verdict (.command (.ensureFeature "saml"))).2 ≠ .reply .granted ∧
      (site.custody.license.atTier .enterprise).hasFeature "webhooks" = true ∧
      (site.custody.license.atTier .enterprise).hasFeature "beta" = false := by
  refine
    ⟨Key.verify Ed25519.scheme Key.sampleTrusted, Key.sampleEnvelope.encode, _, rfl, rfl, rfl, ?_⟩
  have hgenuine := isGenuine_run Ed25519.scheme Key.sampleTrusted License.epoch
    (loading Key.sampleClaims.issuedAt Key.sampleEnvelope.encode)
  obtain ⟨hagree, hshows, hshown, hmono, hunregistered⟩ := entitlements_agree
    (Key.verify Ed25519.scheme Key.sampleTrusted) ((Site.start License.epoch).run _ _).1
  obtain ⟨names, hnames⟩ := hshown hgenuine
  obtain ⟨-, hmem⟩ := hshows names hnames
  have hlicense : ((Site.start License.epoch).run (Key.verify Ed25519.scheme Key.sampleTrusted)
      (loading Key.sampleClaims.issuedAt Key.sampleEnvelope.encode)).1.custody.license =
        ⟨Key.sampleClaims, .verified⟩ := by
    rw [custody_run_loading License.epoch Key.verify_sampleEnvelope_issuedAt]
    rfl
  rw [hlicense] at hmem hagree hmono hunregistered ⊢
  refine ⟨rfl, ⟨names, hnames, ?_, ?_, ?_⟩, ((hagree "scim").out 3 2).mp (by decide), ?_, ?_, ?_⟩
  · exact (hmem "scim").mpr (by decide)
  · exact (hmem "webhooks").mpr (by decide)
  · exact fun hsaml => absurd ((hmem "saml").mp hsaml) (by decide)
  · exact fun hgranted => absurd (((hagree "saml").out 1 3).mp hgranted) (by decide)
  · exact hmono _ (by decide) (fun name hname => hname) _ (by decide)
  · rw [Bool.eq_false_iff, Ne, hunregistered "beta" (by decide) .enterprise]
    decide

end Entitlement.Site
