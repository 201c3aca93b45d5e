import Entitlement.Grant.License
import Entitlement.Json.Text

/-! # Denials

What a license does not allow is denied with the facts that a customer needs: the tier that would
allow a feature, or the ceiling that was reached, and the tier in force. A denial names no customer.
-/

namespace Entitlement.Grant

open Plan

/-- A feature that the license in force does not include. -/
structure FeatureDenial where
  feature : Feature
  /-- The lowest tier that includes the feature; none if only a grant by name does. -/
  requiredTier : Option Tier
  currentTier : Tier
  deriving DecidableEq

/-- A ceiling that leaves no room for one more unit. -/
structure LimitDenial where
  limit : String
  /-- The ceiling; none if the license has no ceiling of that name. -/
  ceiling : Option UInt64
  currentTier : Tier
  deriving DecidableEq

namespace License

/-- Asks for a feature. -/
def ensureFeature (license : License) (feature : Feature) : Except FeatureDenial Unit :=
  if license.hasFeature feature then .ok ()
  else .error ⟨feature, Feature.minimumTier feature, license.tier⟩

/-- Asks for one more unit when `usage` units are in use. -/
def ensureLimit (license : License) (limit : String) (usage : UInt64) :
    Except LimitDenial Unit :=
  if license.allows limit usage then .ok ()
  else .error ⟨limit, license.claims.limits.get? limit, license.tier⟩

end License

def FeatureDenial.message (denial : FeatureDenial) : String :=
  s!"feature '{denial.feature}' is not included in the {denial.currentTier.name} tier"

def LimitDenial.message (denial : LimitDenial) : String :=
  s!"usage limit '{denial.limit}' reached"

/-- A denied feature as a JSON object. -/
def FeatureDenial.toJson (denial : FeatureDenial) : String :=
  Json.object
    [("error", Json.string "entitlement_required"),
      ("feature", Json.string denial.feature),
      ("required_tier", Json.optional (fun tier => Json.string tier.name) denial.requiredTier),
      ("current_tier", Json.string denial.currentTier.name)]

/-- A denied unit as a JSON object. -/
def LimitDenial.toJson (denial : LimitDenial) : String :=
  Json.object
    [("error", Json.string "limit_reached"),
      ("limit", Json.string denial.limit),
      ("max", Json.optional (fun ceiling => Json.nat ceiling.toNat) denial.ceiling),
      ("current_tier", Json.string denial.currentTier.name)]

end Entitlement.Grant
