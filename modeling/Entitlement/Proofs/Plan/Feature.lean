import Mathlib.Data.List.Nodup
import Entitlement.Plan.Feature

/-! # Which tiers include which features

No name stands twice in the registry. The first entry for a name is therefore the only one, and
going through all entries for those that a tier includes gives the same features as looking each of
them up.
-/

namespace Entitlement.Plan

/-! ## Tiers -/

section Tiers

variable {tier other lower : Tier}

theorem Tier.includes_iff : tier.includes other = true ↔ other.level ≤ tier.level :=
  decide_eq_true_iff

theorem Tier.lt_iff_includes_eq_false : tier < other ↔ tier.includes other = false := by
  rw [Bool.eq_false_iff, Ne, includes_iff, Nat.not_le]
  rfl

theorem Tier.includes_trans (htier : tier.includes other = true)
    (hother : other.includes lower = true) : tier.includes lower = true :=
  includes_iff.mpr (Nat.le_trans (includes_iff.mp hother) (includes_iff.mp htier))

end Tiers

/-! ## The registry -/

namespace Feature

theorem registry_nodup : (registry.map Prod.fst).Nodup := by
  decide

variable {feature : Feature} {minimum tier : Tier}

/-- Where no name stands twice, an entry is found under its name. -/
theorem lookup_of_mem {entries : List (Feature × Tier)} (hnodup : (entries.map Prod.fst).Nodup)
    (hentry : (feature, minimum) ∈ entries) : entries.lookup feature = some minimum := by
  obtain ⟨before, after, rfl⟩ := List.append_of_mem hentry
  refine List.lookup_eq_some_iff.mpr ⟨before, after, rfl, fun entry hbefore => ?_⟩
  rw [List.map_append, List.nodup_append] at hnodup
  have hne : entry.1 ≠ feature :=
    hnodup.2.2 _ (List.mem_map_of_mem hbefore) _ (List.mem_map_of_mem List.mem_cons_self)
  exact bne_iff_ne.mpr hne.symm

theorem minimumTier_eq_some_iff :
    minimumTier feature = some minimum ↔ (feature, minimum) ∈ registry := by
  constructor
  · intro hfound
    obtain ⟨before, after, hentries, -⟩ := List.lookup_eq_some_iff.mp hfound
    rw [hentries]
    exact List.mem_append_right _ List.mem_cons_self
  · exact lookup_of_mem registry_nodup

/-- The features of a tier are those whose lowest tier it includes. -/
theorem mem_ofTier_iff :
    feature ∈ ofTier tier ↔
      ∃ minimum, minimumTier feature = some minimum ∧ tier.includes minimum = true := by
  simp only [ofTier, List.mem_map, List.mem_filter, minimumTier_eq_some_iff]
  constructor
  · rintro ⟨⟨name, minimum⟩, ⟨hentry, hincludes⟩, rfl⟩
    exact ⟨minimum, hentry, hincludes⟩
  · rintro ⟨minimum, hentry, hincludes⟩
    exact ⟨(feature, minimum), ⟨hentry, hincludes⟩, rfl⟩

theorem minimumTier_eq_none_iff :
    minimumTier feature = none ↔ feature ∉ registry.map Prod.fst := by
  simp [Option.eq_none_iff_forall_ne_some, minimumTier_eq_some_iff]

end Feature

end Entitlement.Plan
