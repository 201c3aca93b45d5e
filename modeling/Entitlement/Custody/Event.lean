import Entitlement.Key.Verify

/-! # Events

Every change of the license in force, and every failed check of a key, is an event. Events tell
license ids, tiers and classes of reasons; what else a license says about its customer never appears
in one. The event in effect describes the license in force to those who come late.
-/

namespace Entitlement.Custody

open Grant Plan

/-- What those who follow the license in force are told. -/
inductive Event where
  | licenseLoaded (licenseId : String) (tier : Tier)
  | communityEdition (tier : Tier)
  /-- The license that was in force before the check, and the tier in force after it. -/
  | revalidationFailed (licenseId : String) (tier : Tier) (reason : Key.Rejection)
  | licenseDemoted (licenseId : String) (tier : Tier)
  deriving DecidableEq

namespace Event

/-- The event that describes a license in force. -/
def inEffect (license : License) : Event :=
  if license.isCommunity then .communityEdition license.tier
  else .licenseLoaded license.id license.tier

/-- An event as a JSON object. -/
def toJson : Event → String
  | .licenseLoaded licenseId tier =>
    Json.object
      [("event", Json.string "license_loaded"), ("license_id", Json.string licenseId),
        ("tier", Json.string tier.name)]
  | .communityEdition tier =>
    Json.object [("event", Json.string "community_edition"), ("tier", Json.string tier.name)]
  | .revalidationFailed licenseId tier reason =>
    Json.object
      [("event", Json.string "revalidation_failed"), ("license_id", Json.string licenseId),
        ("tier", Json.string tier.name), ("reason", Json.string reason.name)]
  | .licenseDemoted licenseId tier =>
    Json.object
      [("event", Json.string "license_demoted"), ("license_id", Json.string licenseId),
        ("tier", Json.string tier.name)]

end Event

end Entitlement.Custody
