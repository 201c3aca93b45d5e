import Entitlement.Grant.Denial
import Entitlement.Http.Request
import Entitlement.Http.Response

/-! # Routing

Three routes can be read by anyone: the health of the service, the license in force without its
customer, and the feed of events. The feed stands behind a gate, which lets a request through only
if the license in force has the feature and otherwise asks for payment. Requests that ask in advance
what another origin may do are answered before any route is looked at.
-/

namespace Entitlement.Http

open Grant Plan

/-! ## Documents -/

/-- The health of the service. -/
def healthDocument (license : License) : String :=
  Json.object
    [("status", Json.string "ok"), ("edition", Json.string license.tier.edition),
      ("tier", Json.string license.tier.name)]

/-- The license in force, without anything that identifies its customer. -/
def licenseDocument? (license : License) : Option String := do
  let issuedAt ← Calendar.Rfc3339.format? license.claims.issuedAt
  let expiresAt ← Calendar.Rfc3339.format? license.claims.expiresAt
  return Json.object
    [("id", Json.string license.id),
      ("community", Json.bool license.isCommunity),
      ("edition", Json.string license.tier.edition),
      ("tier", Json.string license.tier.name),
      ("type", Json.string license.claims.licenseType.name),
      ("issued_at", Json.string issuedAt),
      ("expires_at", Json.string expiresAt),
      ("features", Claims.writeNames license.effectiveFeatures),
      ("limits", Claims.writeLimits (fun members => members) license.claims.limits)]

/-! ## Gate -/

/-- The status that asks for payment. -/
def paymentRequired : Nat := 402

/-- The answer to a denied feature. -/
def ofFeatureDenial (denial : FeatureDenial) : Response :=
  .json paymentRequired denial.toJson

/-- The answer to a denied unit. -/
def ofLimitDenial (denial : LimitDenial) : Response :=
  .json paymentRequired denial.toJson

/-- Lets a request through to its answer if the license has a feature. -/
def gate (license : License) (feature : Feature) (answer : Response) : Response :=
  match license.ensureFeature feature with
  | .ok () => answer
  | .error denial => ofFeatureDenial denial

/-! ## Routes -/

/-- The routes of the service. -/
inductive Route where
  | health | license | events
  deriving DecidableEq

def Route.path : Route → String
  | .health => "/api/healthz"
  | .license => "/api/license"
  | .events => "/api/license/events"

/-- The route of a path, which has to match to the letter. -/
def Route.ofPath? (path : String) : Option Route :=
  [Route.health, .license, .events].find? fun route => route.path == path

/-- The feature that a route requires. -/
def Route.feature? : Route → Option Feature
  | .health | .license => none
  | .events => some Feature.auditLogs

/-- The methods that routes answer. -/
def answeredMethods : List String := ["GET", "HEAD"]

/-- What a route says of a license. -/
def Route.answer (license : License) : Route → Response
  | .health => .json 200 (healthDocument license)
  | .license =>
    match licenseDocument? license with
    | some document => .json 200 document
    | none => .plain 500 Calendar.Rfc3339.unwritable
  | .events => .feed (.inEffect license)

/-- Puts an answer behind the gate of a route. -/
def Route.gated (license : License) (route : Route) (answer : Response) : Response :=
  match route.feature? with
  | none => answer
  | some feature => gate license feature answer

/-- The answer of a route to a method. The gate comes first, whatever the method is. -/
def Route.respond (license : License) (method : String) (route : Route) : Response :=
  if answeredMethods.contains method then
    (route.gated license (route.answer license)).measured
  else
    (route.gated license (.bare 405)).measured.withHeader "allow"
      (String.intercalate "," answeredMethods)

/-! ## Other origins -/

/-- The method that asks in advance what another origin may do. -/
def preflightMethod : String := "OPTIONS"

/-- Opens a response to every origin. -/
def openToOrigins (response : Response) : Response :=
  (response.withHeader "access-control-allow-origin" "*").withHeader "vary"
    "origin, access-control-request-method, access-control-request-headers"

/-- The answer to a question in advance: everything is allowed. -/
def preflight (route? : Option Route) : Response :=
  let response :=
    ((Response.bare 200).measured.withHeader "access-control-allow-headers" "*").withHeader
      "access-control-allow-methods" "*"
  match route? with
  | none => response
  | some _ => response.withHeader "allow" (String.intercalate "," answeredMethods)

/-- The answer to a request while a license is in force. -/
def respond (license : License) (request : Request) : Response :=
  let route? := Route.ofPath? request.path
  if request.method = preflightMethod then openToOrigins (preflight route?)
  else
    let response :=
      match route? with
      | none => (Response.bare 404).measured
      | some route => route.respond license request.method
    let response := if request.method = "HEAD" then response.withoutBody else response
    openToOrigins (response.withHeader "access-control-expose-headers" "*")

end Entitlement.Http
