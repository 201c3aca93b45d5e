import Entitlement.Grant.Denial
import Entitlement.Proofs.Plan.Feature
import Entitlement.Proofs.Plan.Limits

/-! # What a license allows

A feature is available by name or by tier, and the list of what is available names the same
features. A higher tier or more grants take nothing away. One more unit fits under a ceiling if the
ceiling does not limit or lies above what is in use, which is a matter of whole numbers: the sum
never overflows.
-/

namespace Entitlement.Grant.License

open Plan

variable {license : License}

/-! ## Features -/

section Features

variable {feature : Feature}

theorem hasFeature_iff :
    license.hasFeature feature = true ↔
      license.claims.features.has feature = true ∨
        ∃ minimum, Feature.minimumTier feature = some minimum ∧
          license.tier.includes minimum = true := by
  rw [hasFeature, Bool.or_eq_true]
  cases Feature.minimumTier feature <;> simp

/-- The features that a license lists are those that it has. -/
theorem has_effectiveFeatures_iff :
    license.effectiveFeatures.has feature = true ↔ license.hasFeature feature = true := by
  rw [effectiveFeatures, NameSet.has_insertAll, Feature.mem_ofTier_iff, hasFeature_iff, or_comm]

/-- A tier that includes the other one and at least the same grants allow at least the same. -/
theorem hasFeature_mono {other : License} (htier : other.tier.includes license.tier = true)
    (hgrants : ∀ name, license.claims.features.has name = true →
      other.claims.features.has name = true)
    (hfeature : license.hasFeature feature = true) : other.hasFeature feature = true := by
  rw [hasFeature_iff] at hfeature ⊢
  rcases hfeature with hgranted | ⟨minimum, hminimum, hincludes⟩
  · exact .inl (hgrants feature hgranted)
  · exact .inr ⟨minimum, hminimum, Tier.includes_trans htier hincludes⟩

/-- Without a place in the registry a feature is available by name only. -/
theorem hasFeature_of_unregistered (hname : Feature.minimumTier feature = none) :
    license.hasFeature feature = license.claims.features.has feature := by
  rw [hasFeature, hname, Bool.or_false]

theorem ensureFeature_eq_ok_iff :
    license.ensureFeature feature = .ok () ↔ license.hasFeature feature = true := by
  unfold ensureFeature
  split
  next hhas => exact iff_of_true rfl hhas
  next hlacks => exact iff_of_false (fun hok => nomatch hok) hlacks

theorem ensureFeature_eq_error_iff {denial : FeatureDenial} :
    license.ensureFeature feature = .error denial ↔
      license.hasFeature feature = false ∧
        denial = ⟨feature, Feature.minimumTier feature, license.tier⟩ := by
  unfold ensureFeature
  split
  next hhas => simp [hhas]
  next hlacks =>
    rw [Except.error.injEq, Bool.eq_false_iff]
    exact ⟨fun hdenial => ⟨hlacks, hdenial.symm⟩, fun hdenial => hdenial.2.symm⟩

/-! ## The same license under other circumstances -/

/-- The license as it would be at another tier and with other grants. -/
def varied (license : License) (tier : Tier) (grants : NameSet) : License :=
  { license with claims := { license.claims with tier := tier, features := grants } }

/-- The license as it would be at another tier. -/
def atTier (license : License) (tier : Tier) : License :=
  license.varied tier license.claims.features

@[simp] theorem tier_varied (tier : Tier) (grants : NameSet) :
    (license.varied tier grants).tier = tier :=
  rfl

@[simp] theorem features_varied (tier : Tier) (grants : NameSet) :
    (license.varied tier grants).claims.features = grants :=
  rfl

/-- What is not granted by name comes with the lowest tier that includes it and with those above. -/
theorem hasFeature_atTier_iff {required : Tier} (hfeature : license.hasFeature feature = false)
    (hrequired : Feature.minimumTier feature = some required) (tier : Tier) :
    (license.atTier tier).hasFeature feature = true ↔ tier.includes required = true := by
  have hgranted : license.claims.features.has feature = false := by
    rw [hasFeature, Bool.or_eq_false_iff] at hfeature
    exact hfeature.1
  simp [atTier, hasFeature_iff, hgranted, hrequired]

/-- What is denied by the tier needs a higher one. -/
theorem tier_lt_of_not_hasFeature {required : Tier} (hfeature : license.hasFeature feature = false)
    (hrequired : Feature.minimumTier feature = some required) : license.tier < required := by
  rw [Tier.lt_iff_includes_eq_false, Bool.eq_false_iff]
  intro hincludes
  have hhas : license.hasFeature feature = true :=
    hasFeature_iff.mpr (.inr ⟨required, hrequired, hincludes⟩)
  rw [hhas] at hfeature
  cases hfeature

end Features

/-! ## Limits -/

section Limits

variable {limit : String} {usage : UInt64}

/-- A ceiling leaves room for one more unit if it does not limit or the unit still fits under it. -/
theorem allows_iff :
    license.allows limit usage = true ↔
      ∃ ceiling, (limit, ceiling) ∈ license.claims.limits.entries ∧
        (ceiling.toNat = 0 ∨ usage.toNat + 1 ≤ ceiling.toNat) := by
  simp only [Limits.mem_entries_iff, allows, Limits.allows]
  cases license.claims.limits.get? limit with
  | none => simp
  | some ceiling =>
      simp only [Option.some.injEq, exists_eq_left']
      rw [Bool.or_eq_true, beq_iff_eq, decide_eq_true_iff, UInt64.lt_iff_toNat_lt,
        ← UInt64.toNat_inj]
      exact Iff.rfl

theorem allows_of_le {smaller : UInt64} (hle : smaller ≤ usage)
    (hallows : license.allows limit usage = true) : license.allows limit smaller = true := by
  rw [allows_iff] at hallows ⊢
  obtain ⟨ceiling, hentry, hroom⟩ := hallows
  have hless := UInt64.le_iff_toNat_le.mp hle
  exact ⟨ceiling, hentry, hroom.imp_right fun hfits => by omega⟩

theorem ensureLimit_eq_ok_iff :
    license.ensureLimit limit usage = .ok () ↔ license.allows limit usage = true := by
  unfold ensureLimit
  split
  next hroom => exact iff_of_true rfl hroom
  next hfull => exact iff_of_false (fun hok => nomatch hok) hfull

theorem ensureLimit_eq_error_iff {denial : LimitDenial} :
    license.ensureLimit limit usage = .error denial ↔
      license.allows limit usage = false ∧
        denial = ⟨limit, license.claims.limits.get? limit, license.tier⟩ := by
  unfold ensureLimit
  split
  next hroom => simp [hroom]
  next hfull =>
    rw [Except.error.injEq, Bool.eq_false_iff]
    exact ⟨fun hdenial => ⟨hfull, hdenial.symm⟩, fun hdenial => hdenial.2.symm⟩

/-- A ceiling that was reached is a ceiling of the license, and limits. -/
theorem ceiling_of_not_allows {ceiling : UInt64} (hallows : license.allows limit usage = false)
    (hentry : (limit, ceiling) ∈ license.claims.limits.entries) :
    0 < ceiling.toNat ∧ ceiling.toNat ≤ usage.toNat := by
  have hfull : ¬ (ceiling.toNat = 0 ∨ usage.toNat + 1 ≤ ceiling.toNat) := by
    intro hroom
    rw [allows_iff.mpr ⟨ceiling, hentry, hroom⟩] at hallows
    cases hallows
  omega

end Limits

end Entitlement.Grant.License
