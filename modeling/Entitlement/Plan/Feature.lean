import Entitlement.Plan.Tier

/-! # Features

A feature is known by its exact name. The registry gives the lowest tier that includes a feature; a
feature outside the registry is available only where a license grants it by name.
-/

namespace Entitlement.Plan

/-- A feature is its name. -/
abbrev Feature := String

namespace Feature

def auditLogs : Feature := "audit_logs"

/-- Every feature that comes with a tier, with the lowest tier that includes it. -/
def registry : List (Feature × Tier) :=
  [("ci_api", .free), ("wizards", .free),
    ("advanced_analytics", .pro), ("custom_domains", .pro), ("webhooks", .pro),
    ("api_access", .pro),
    (auditLogs, .business), ("saml", .business), ("rbac", .business),
    ("scheduled_reports", .business),
    ("scim", .enterprise), ("white_label", .enterprise), ("data_residency", .enterprise),
    ("priority_support", .enterprise)]

/-- The lowest tier that includes a feature, if any tier does. -/
def minimumTier (feature : Feature) : Option Tier :=
  registry.lookup feature

/-- The registered features that a tier includes. -/
def ofTier (tier : Tier) : List Feature :=
  (registry.filter fun entry => tier.includes entry.2).map Prod.fst

end Feature

end Entitlement.Plan
