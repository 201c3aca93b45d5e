import Entitlement.Proofs.Http.Router
import Entitlement.Proofs.Key.Issue
import Entitlement.Proofs.Site.Follower

/-! # The gate before the feed

The feed of events is for licenses that include audit logs. Whatever is asked of a running site, in
whatever way, the feed gets out only to those who may read it. And asking leaves no trace: the site
goes on as if nobody had asked.
-/

namespace Entitlement.Site

open Custody Grant Plan

/-- Whether an operation is a request. -/
def Operation.isRequest : Operation → Bool
  | .request _ _ | .gated _ _ | .metered _ _ => true
  | _ => false

theorem isPassive_of_isRequest {operation : Operation} (hrequest : operation.isRequest = true) :
    operation.isPassive = true := by
  cases operation <;> first | rfl | cases hrequest

variable {verdict : Verdict} {site : Site}

theorem outcome_request (request : Http.Request) (feed : Option String) :
    (site.perform verdict (.request request feed)).2 =
      .response (Http.respond site.custody.license request) := by
  unfold perform
  dsimp only
  split <;> rfl

/-- A request leaves everybody else where they were, and nobody can tell afterwards that it was
made. -/
theorem run_after_request {asked : Operation} (hrequest : asked.isRequest = true) :
    (site.perform verdict asked).1.custody = site.custody ∧
    (∀ follower, asked.follower? ≠ some follower →
      (site.perform verdict asked).1.place? follower = site.place? follower) ∧
    ∀ operations : List Operation,
      (∀ operation ∈ operations, ∀ follower, operation.follower? = some follower →
        asked.follower? ≠ some follower) →
      ((site.perform verdict asked).1.run verdict operations).2 =
        (site.run verdict operations).2 := by
  have hagrees : site.AgreesOn (asked.follower? != some ·) (site.perform verdict asked).1 := by
    apply agreesOn_perform (isPassive_of_isRequest hrequest)
    intro own hown
    rw [hown, bne_self_eq_false]
  refine ⟨hagrees.custody, fun follower hother => hagrees.place follower (bne_iff_ne.mpr hother),
    ?_⟩
  intro operations hothers
  exact (hagrees.run fun operation hoperation follower hfollower =>
    bne_iff_ne.mpr (hothers operation hoperation follower hfollower)).2

theorem outcome_gated (feature : Feature) (answer : Http.Response) :
    (site.perform verdict (.gated feature answer)).2 =
      .response (Http.gate site.custody.license feature answer).measured :=
  rfl

theorem getsThrough_gated {feature : Feature} :
    Http.GetsThrough (fun answer => (site.perform verdict (.gated feature answer)).2) ↔
      site.custody.license.hasFeature feature = true := by
  rw [← Http.getsThrough_gate]
  simp [Http.GetsThrough, outcome_gated]

/-- What a site makes of requests, whoever asks and however it is asked. The feed gets out to GET on
its own path while the license in force includes audit logs, and to nothing else. While it does not,
all that is asked on that path is denied with the facts, whatever the method is, except where it is
asked in advance what another origin may do. A request gets through to a handler only with a method
that routes answer, so a question in advance never does; and it gets through the gate of a feature,
whichever that is, just when the license includes the feature. No request changes the license in
force, its clock, the events or what those who follow them are given. -/
theorem request_gate (verdict : Verdict) (site : Site) (method : String) {target path : String}
    (hpath : Http.pathOf? target = some path) (headers : List (String × String))
    (feed : Option String) :
    let request : Http.Request := ⟨method, path, headers⟩
    let license := site.custody.license
    let response := Http.respond license request
    (site.perform verdict (.request request feed)).2 = .response response ∧
    (∀ first, response.body = .feed first ↔
      method = "GET" ∧ Http.pathOf? target = some "/api/license/events" ∧
        license.hasFeature Feature.auditLogs = true ∧ first = .inEffect license) ∧
    (license.hasFeature Feature.auditLogs = false →
      Http.pathOf? target = some "/api/license/events" → method ≠ "OPTIONS" →
        response.status = 402 ∧
          response.body = .complete (if method = "HEAD" then "" else
            Json.object
              [("error", Json.string "entitlement_required"), ("feature", Json.string "audit_logs"),
                ("required_tier", Json.string "business"),
                ("current_tier", Json.string license.tier.name)])) ∧
    response = Http.respondBy (Http.Route.answer license) license request ∧
    (Http.GetsThrough (Http.respondBy · license request) ↔
      (method = "GET" ∨ method = "HEAD") ∧
        ∃ route : Http.Route, Http.pathOf? target = some route.path ∧
          (route = .events → license.hasFeature Feature.auditLogs = true)) ∧
    (∀ feature,
      (Http.GetsThrough (fun answer => (site.perform verdict (.gated feature answer)).2) ↔
        license.hasFeature feature = true) ∧
      (license.hasFeature feature = true → ∀ answer,
        (site.perform verdict (.gated feature answer)).2 = .response answer.measured) ∧
      (license.hasFeature feature = false → ∀ answer,
        (site.perform verdict (.gated feature answer)).2 = .response (Http.ofFeatureDenial
          ⟨feature, Feature.minimumTier feature, license.tier⟩).measured)) ∧
    ∀ asked : Operation, asked.isRequest = true →
      (site.perform verdict asked).1.custody = site.custody ∧
      (∀ follower, asked.follower? ≠ some follower →
        (site.perform verdict asked).1.place? follower = site.place? follower) ∧
      ∀ operations : List Operation,
        (∀ operation ∈ operations, ∀ follower, operation.follower? = some follower →
          asked.follower? ≠ some follower) →
        ((site.perform verdict asked).1.run verdict operations).2 =
          (site.run verdict operations).2 := by
  intro request license response
  rw [hpath]
  simp only [Option.some.injEq]
  refine ⟨outcome_request request feed, fun first => Http.body_respond_eq_feed_iff, ?_,
    Http.respond_eq_respondBy license request, ?_, ?_, ?_⟩
  · intro hfeature hevents hmethod
    exact Http.respond_denied hfeature hevents hmethod
  · rw [Http.getsThrough_respondBy]
    simp [request, Http.answeredMethods, Http.Route.isOpenTo_iff]
  · intro feature
    refine ⟨getsThrough_gated, fun hfeature answer => ?_, fun hfeature answer => ?_⟩
    · rw [outcome_gated, Http.gate_of_hasFeature hfeature]
    · rw [outcome_gated, Http.gate_of_not_hasFeature hfeature]
  · exact fun asked => run_after_request

/-- Before anything has happened even a method that no route answers is denied, and once a license
that includes audit logs is in force the feed starts with it. -/
theorem request_gate_sample :
    ∃ grant site, grant = License.mk { Key.sampleClaims with tier := .business } .verified ∧
      site = ((Site.start License.epoch).run (fun _ _ => .ok grant) [.command (.load "")]).1 ∧
      (Http.respond .community ⟨"POST", "/api/license/events", []⟩).status = 402 ∧
      (Http.respond site.custody.license ⟨"GET", "/api/license/events", []⟩).body =
        .feed (.licenseLoaded grant.id .business) := by
  refine ⟨_, _, rfl, rfl, ?_, ?_⟩
  · have hpath : Http.pathOf? "/api/license/events?since=1" = some "/api/license/events" := by rfl
    obtain ⟨-, -, hdenied, -⟩ := request_gate (fun _ _ => .ok .community)
      (Site.start License.epoch) "POST" hpath [] none
    exact (hdenied (by decide) (by decide) (by decide)).1
  · have hpath : Http.pathOf? "/api/license/events" = some "/api/license/events" := by rfl
    obtain ⟨-, hfeed, -⟩ := request_gate (fun _ _ => .ok .community) _ "GET" hpath [] none
    exact (hfeed _).mpr ⟨rfl, by decide, by decide, rfl⟩

end Entitlement.Site
