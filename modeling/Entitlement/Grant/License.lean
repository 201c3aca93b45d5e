import Entitlement.Grant.Claims

/-! # Licenses

A license is claims together with where they come from: from a key whose signature and window were
checked, or from the Community default, which needs no key. The two are never confused, whatever the
claims say. A feature is available if the license grants it by name or the tier includes it.
-/

namespace Entitlement.Grant

open Plan Calendar

/-- Where the claims of a license come from. -/
inductive Origin where
  | community | verified
  deriving DecidableEq

/-- Claims in force. -/
structure License where
  claims : Claims
  origin : Origin
  deriving DecidableEq

namespace License

/-- The midnight with which the Community window starts. -/
def epoch : Timestamp :=
  ⟨⟨1970, 1, 1, by decide, by decide, by decide⟩,
    ⟨0, 0, 0, 0, by decide, by decide, by decide, by decide⟩, .utc⟩

/-- The last second of the calendar, with which the Community window ends. -/
def endOfTime : Timestamp :=
  ⟨⟨9999, 12, 31, by decide, by decide, by decide⟩,
    ⟨23, 59, 59, 0, by decide, by decide, by decide, by decide⟩, .utc⟩

/-- The entitlement that is in force when no key is held. -/
def community : License where
  claims :=
    { id := "community", customerId := "", customerName := "", email := ""
      licenseType := .perpetual, tier := .free, issuedAt := epoch, expiresAt := endOfTime
      features := ∅, limits := .community, metadata := ∅ }
  origin := .community

instance : Inhabited License := ⟨community⟩

def isCommunity (license : License) : Bool :=
  license.origin == .community

def id (license : License) : String := license.claims.id

def tier (license : License) : Tier := license.claims.tier

/-- Whether a feature is available: granted by name, or included in the tier. -/
def hasFeature (license : License) (feature : Feature) : Bool :=
  license.claims.features.has feature ||
    (match Feature.minimumTier feature with
      | none => false
      | some minimum => license.tier.includes minimum)

/-- Whether one more unit may be used when `usage` units are in use. -/
def allows (license : License) (limit : String) (usage : UInt64) : Bool :=
  license.claims.limits.allows limit usage

/-- Every feature that is available: those granted by name and those the tier includes. -/
def effectiveFeatures (license : License) : NameSet :=
  license.claims.features.insertAll (Feature.ofTier license.tier)

end License

end Entitlement.Grant
