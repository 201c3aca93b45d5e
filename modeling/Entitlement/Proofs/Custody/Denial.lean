import Entitlement.Custody.Command
import Entitlement.Proofs.Grant.License
import Entitlement.Signature.Ed25519

/-! # What a denial tells

Whoever is denied a feature or a unit is told what would have helped. A denial names the tier in
force and the lowest tier that would have been enough, or no tier where only a grant by name is; it
names the ceiling that was reached, or no ceiling where the license has none. What is told can be
checked by asking again under the same license at other tiers, with other grants or for other
usages.
-/

namespace Entitlement.Custody

open Grant Plan Signature

variable {verdict : Verdict} {c : Custody}

/-- The reply to a command if another license were in force. -/
def replyUnder (verdict : Verdict) (c : Custody) (license : License) (command : Command) : Reply :=
  (({ c with license } : Custody).execute verdict command).2

section Replies

variable {license : License} {feature : Feature} {limit : String} {usage : UInt64}

theorem replyUnder_ensureFeature :
    c.replyUnder verdict license (.ensureFeature feature) =
      match license.ensureFeature feature with
      | .ok () => .granted
      | .error denial => .featureDenied denial := by
  change (execute verdict _ _).2 = _
  unfold execute
  dsimp only
  cases license.ensureFeature feature <;> rfl

theorem replyUnder_ensureLimit :
    c.replyUnder verdict license (.ensureLimit limit usage) =
      match license.ensureLimit limit usage with
      | .ok () => .granted
      | .error denial => .limitDenied denial := by
  change (execute verdict _ _).2 = _
  unfold execute
  dsimp only
  cases license.ensureLimit limit usage <;> rfl

theorem granted_feature_iff :
    c.replyUnder verdict license (.ensureFeature feature) = .granted ↔
      license.hasFeature feature = true := by
  rw [replyUnder_ensureFeature, ← License.ensureFeature_eq_ok_iff]
  cases license.ensureFeature feature <;> simp

theorem featureDenied_iff {denial : FeatureDenial} :
    c.replyUnder verdict license (.ensureFeature feature) = .featureDenied denial ↔
      license.hasFeature feature = false ∧
        denial = ⟨feature, Feature.minimumTier feature, license.tier⟩ := by
  rw [replyUnder_ensureFeature, ← License.ensureFeature_eq_error_iff]
  cases license.ensureFeature feature <;> simp

theorem granted_limit_iff :
    c.replyUnder verdict license (.ensureLimit limit usage) = .granted ↔
      license.allows limit usage = true := by
  rw [replyUnder_ensureLimit, ← License.ensureLimit_eq_ok_iff]
  cases license.ensureLimit limit usage <;> simp

theorem limitDenied_iff {denial : LimitDenial} :
    c.replyUnder verdict license (.ensureLimit limit usage) = .limitDenied denial ↔
      license.allows limit usage = false ∧
        denial = ⟨limit, license.claims.limits.get? limit, license.tier⟩ := by
  rw [replyUnder_ensureLimit, ← License.ensureLimit_eq_error_iff]
  cases license.ensureLimit limit usage <;> simp

end Replies

/-- What a denial tells of a feature under the license in force: which one it is, the tier in force,
and what would help. If it names a tier, that tier lies above the one in force, and it and the tiers
above it would be enough and no other would. If it names none, no tier would be enough, and at each
of them a grant by name would be. -/
structure TellsOfFeature (verdict : Verdict) (c : Custody) (feature : Feature)
    (denial : FeatureDenial) : Prop where
  feature_eq : denial.feature = feature
  currentTier_eq : denial.currentTier = c.license.tier
  lt_requiredTier : ∀ required, denial.requiredTier = some required → c.license.tier < required
  granted_iff_includes : ∀ required, denial.requiredTier = some required → ∀ tier,
    c.replyUnder verdict (c.license.atTier tier) (.ensureFeature feature) = .granted ↔
      tier.includes required = true
  not_granted : denial.requiredTier = none → ∀ tier,
    c.replyUnder verdict (c.license.atTier tier) (.ensureFeature feature) ≠ .granted
  granted_iff_has : denial.requiredTier = none → ∀ tier grants,
    c.replyUnder verdict (c.license.varied tier grants) (.ensureFeature feature) = .granted ↔
      grants.has feature = true

/-- What a denial tells of a limit under the license in force: which one it is, the tier in force,
and the ceiling that the usage has reached, or none if the license has no ceiling of that name. -/
structure TellsOfLimit (c : Custody) (limit : String) (usage : UInt64) (denial : LimitDenial) :
    Prop where
  limit_eq : denial.limit = limit
  currentTier_eq : denial.currentTier = c.license.tier
  ceiling_eq_none_iff : denial.ceiling = none ↔
    ∀ ceiling, (limit, ceiling) ∉ c.license.claims.limits.entries
  mem_entries : ∀ ceiling, denial.ceiling = some ceiling →
    (limit, ceiling) ∈ c.license.claims.limits.entries
  pos_le_usage : ∀ ceiling, denial.ceiling = some ceiling →
    0 < ceiling.toNat ∧ ceiling.toNat ≤ usage.toNat

theorem tellsOfFeature {feature : Feature} {denial : FeatureDenial}
    (hdenied : (c.execute verdict (.ensureFeature feature)).2 = .featureDenied denial) :
    TellsOfFeature verdict c feature denial := by
  obtain ⟨hlacks, rfl⟩ := featureDenied_iff.mp hdenied
  constructor
  case feature_eq | currentTier_eq => rfl
  case lt_requiredTier =>
    exact fun required hrequired => License.tier_lt_of_not_hasFeature hlacks hrequired
  case granted_iff_includes =>
    intro required hrequired tier
    rw [granted_feature_iff, License.hasFeature_atTier_iff hlacks hrequired]
  case not_granted =>
    intro hnone tier
    rw [Ne, granted_feature_iff, License.hasFeature_of_unregistered hnone, Bool.not_eq_true]
    rwa [License.hasFeature_of_unregistered hnone] at hlacks
  case granted_iff_has =>
    intro hnone tier grants
    rw [granted_feature_iff, License.hasFeature_of_unregistered hnone, License.features_varied]

theorem tellsOfLimit {limit : String} {usage : UInt64} {denial : LimitDenial}
    (hdenied : (c.execute verdict (.ensureLimit limit usage)).2 = .limitDenied denial) :
    TellsOfLimit c limit usage denial := by
  obtain ⟨hfull, rfl⟩ := limitDenied_iff.mp hdenied
  constructor
  case limit_eq | currentTier_eq => rfl
  case ceiling_eq_none_iff =>
    simp [Limits.mem_entries_iff, Option.eq_none_iff_forall_ne_some]
  case mem_entries => exact fun ceiling hceiling => Limits.mem_entries_iff.mpr hceiling
  case pos_le_usage =>
    intro ceiling hceiling
    exact License.ceiling_of_not_allows hfull (Limits.mem_entries_iff.mpr hceiling)

/-- Whoever asks for a feature or for one more unit is granted it or is denied it with the truth,
whatever license is in force. A denied feature comes with what would have been enough and with
nothing less. One more unit is granted exactly if the license has a ceiling of the name which is
zero or which the usage and one more do not exceed as whole numbers; so less usage is never denied
where more is granted, and asking for a unit comes to the same as asking whether there is room for
it. -/
theorem denials_tell_the_truth (verdict : Verdict) (c : Custody) (feature : Feature)
    (limit : String) (usage : UInt64) :
    let ofFeature := (c.execute verdict (.ensureFeature feature)).2
    let ofLimit := fun usage => (c.execute verdict (.ensureLimit limit usage)).2
    (ofFeature = .granted ∨ ∃ denial, ofFeature = .featureDenied denial) ∧
      (∀ denial, ofFeature = .featureDenied denial → TellsOfFeature verdict c feature denial) ∧
      (ofLimit usage = .granted ∨ ∃ denial, ofLimit usage = .limitDenied denial) ∧
      (∀ denial, ofLimit usage = .limitDenied denial → TellsOfLimit c limit usage denial) ∧
      (ofLimit usage = .granted ↔
        ∃ ceiling, (limit, ceiling) ∈ c.license.claims.limits.entries ∧
          (ceiling.toNat = 0 ∨ usage.toNat + 1 ≤ ceiling.toNat)) ∧
      (ofLimit usage = .granted → ∀ smaller ≤ usage, ofLimit smaller = .granted) ∧
      ∃ room, (c.execute verdict (.allows limit usage)).2 = .truth room ∧
        (room = true ↔ ofLimit usage = .granted) := by
  intro ofFeature ofLimit
  have hgranted : ∀ usage, ofLimit usage = .granted ↔ c.license.allows limit usage = true :=
    fun usage => granted_limit_iff
  refine ⟨?_, fun denial hdenied => tellsOfFeature hdenied, ?_,
    fun denial hdenied => tellsOfLimit hdenied, ?_, ?_, ?_⟩
  · cases hfeature : c.license.hasFeature feature with
    | true => exact .inl (granted_feature_iff.mpr hfeature)
    | false => exact .inr ⟨_, featureDenied_iff.mpr ⟨hfeature, rfl⟩⟩
  · cases hallows : c.license.allows limit usage with
    | true => exact .inl (granted_limit_iff.mpr hallows)
    | false => exact .inr ⟨_, limitDenied_iff.mpr ⟨hallows, rfl⟩⟩
  · rw [hgranted, License.allows_iff]
  · intro hlarger smaller hle
    rw [hgranted] at hlarger ⊢
    exact License.allows_of_le hle hlarger
  · exact ⟨_, rfl, (hgranted usage).symm⟩

/-- Community is denied audit logs, which the two upper tiers would allow, and a fourth user. -/
theorem denials_tell_the_truth_sample :
    ∃ verdict c, c = Custody.start License.epoch ∧
      (c.execute verdict (.ensureFeature "audit_logs")).2 =
        .featureDenied ⟨"audit_logs", some .business, .free⟩ ∧
      c.license.tier < .business ∧
      c.replyUnder verdict (c.license.atTier .pro) (.ensureFeature "audit_logs") ≠ .granted ∧
      c.replyUnder verdict (c.license.atTier .enterprise) (.ensureFeature "audit_logs") = .granted ∧
      (c.execute verdict (.ensureLimit "max_users" 3)).2 =
        .limitDenied ⟨"max_users", some 3, .free⟩ ∧
      (c.execute verdict (.ensureLimit "max_users" 2)).2 = .granted ∧
      (c.execute verdict (.ensureLimit "max_users" 1)).2 = .granted := by
  refine ⟨Key.verify Ed25519.scheme [], _, rfl, ?_⟩
  have hspec := fun limit usage => denials_tell_the_truth (Key.verify Ed25519.scheme [])
    (.start License.epoch) "audit_logs" limit usage
  obtain ⟨-, hfeature, -, hfull, -, -, -⟩ := hspec "max_users" 3
  obtain ⟨-, -, -, -, hroom, hless, -⟩ := hspec "max_users" 2
  have htold := hfeature _ rfl
  refine ⟨rfl, htold.lt_requiredTier _ rfl, ?_, ?_, rfl, ?_, ?_⟩
  · rw [Ne, htold.granted_iff_includes .business rfl .pro]
    decide
  · exact (htold.granted_iff_includes .business rfl .enterprise).mpr (by decide)
  · exact hroom.mpr ⟨3, by decide, by decide⟩
  · exact hless (hroom.mpr ⟨3, by decide, by decide⟩) 1 (by decide)

end Entitlement.Custody
