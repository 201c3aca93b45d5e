import Entitlement.Http.Router

/-! # What gets through to a route

Whether a request gets through to the handler of a route shows in whether another handler would have
given another answer. It gets through if its method is one that routes answer, if its path is that
of the route to the letter, and if the license in force has what the route requires. Whoever asks in
advance what another origin may do gets through to nothing.
-/

namespace Entitlement.Http

open Grant Plan

/-- What is asked gets through to a handler if some other handler gives another answer. -/
def GetsThrough {α β : Type} (answer : α → β) : Prop :=
  ∃ handler other, answer handler ≠ answer other

variable {license : License}

/-! ## Status and body -/

namespace Response

variable (response : Response) (name value : String)

@[simp] theorem status_withHeader : (response.withHeader name value).status = response.status :=
  rfl

@[simp] theorem body_withHeader : (response.withHeader name value).body = response.body :=
  rfl

@[simp] theorem status_measured : response.measured.status = response.status := by
  unfold measured
  split <;> rfl

@[simp] theorem body_measured : response.measured.body = response.body := by
  unfold measured
  split <;> rfl

@[simp] theorem status_withoutBody : response.withoutBody.status = response.status :=
  rfl

@[simp] theorem body_withoutBody : response.withoutBody.body = .complete "" :=
  rfl

@[simp] theorem status_openToOrigins : (openToOrigins response).status = response.status :=
  rfl

@[simp] theorem body_openToOrigins : (openToOrigins response).body = response.body :=
  rfl

end Response

/-! ## The gate -/

section Gate

variable {feature : Feature} {answer : Response}

theorem gate_of_hasFeature (hfeature : license.hasFeature feature = true) :
    gate license feature answer = answer := by
  rw [gate, License.ensureFeature, if_pos hfeature]

theorem gate_of_not_hasFeature (hfeature : license.hasFeature feature = false) :
    gate license feature answer =
      ofFeatureDenial ⟨feature, Feature.minimumTier feature, license.tier⟩ := by
  rw [gate, License.ensureFeature, if_neg (Bool.eq_false_iff.mp hfeature)]

/-- A request gets through a gate to the handler behind it if and only if the license has the
feature. -/
theorem getsThrough_gate :
    GetsThrough (fun answer => (gate license feature answer).measured) ↔
      license.hasFeature feature = true := by
  cases hfeature : license.hasFeature feature with
  | true =>
      refine iff_of_true ⟨.bare 200, .bare 500, ?_⟩ rfl
      intro hsame
      have hstatus := congrArg Response.status hsame
      simp [gate_of_hasFeature hfeature, Response.bare] at hstatus
  | false =>
      refine iff_of_false ?_ Bool.false_ne_true
      rintro ⟨answer, other, hdiffer⟩
      simp [gate_of_not_hasFeature hfeature] at hdiffer

end Gate

/-! ## Routes -/

namespace Route

variable {route : Route}

theorem ofPath?_eq_some_iff {path : String} : ofPath? path = some route ↔ path = route.path := by
  constructor
  · intro hroute
    have hpath := List.find?_some hroute
    exact (beq_iff_eq.mp hpath).symm
  · rintro rfl
    cases route <;> rfl

/-- The license has what a route requires. -/
def IsOpenTo (license : License) (route : Route) : Prop :=
  ∀ feature, route.feature? = some feature → license.hasFeature feature = true

theorem isOpenTo_iff :
    route.IsOpenTo license ↔ (route = .events → license.hasFeature Feature.auditLogs = true) := by
  cases route <;> simp [IsOpenTo, feature?]

theorem gated_of_isOpenTo (hopen : route.IsOpenTo license) (answer : Response) :
    route.gated license answer = answer := by
  unfold gated
  split
  next => rfl
  next hrequired => exact gate_of_hasFeature (hopen _ hrequired)

theorem gated_of_not_hasFeature {feature : Feature} (hrequired : route.feature? = some feature)
    (hfeature : license.hasFeature feature = false) (answer : Response) :
    route.gated license answer =
      ofFeatureDenial ⟨feature, Feature.minimumTier feature, license.tier⟩ := by
  rw [gated, hrequired]
  exact gate_of_not_hasFeature hfeature

/-- In front of a closed gate the answer is a denial, whatever is behind the gate. -/
theorem gated_of_not_isOpenTo (hclosed : ¬ route.IsOpenTo license) :
    ∃ denial, ∀ answer, route.gated license answer = ofFeatureDenial denial := by
  obtain ⟨feature, hrequired, hfeature⟩ : ∃ feature, route.feature? = some feature ∧
      license.hasFeature feature = false := by
    simpa [IsOpenTo] using hclosed
  exact ⟨_, gated_of_not_hasFeature hrequired hfeature⟩

theorem body_answer_eq_feed_iff {first : Custody.Event} :
    (route.answer license).body = .feed first ↔ route = .events ∧ first = .inEffect license := by
  cases route with
  | health => simp [answer, Response.json]
  | license =>
      unfold answer
      dsimp only
      split <;> simp [Response.json, Response.plain]
  | events => simp [answer, Response.feed, eq_comm]

/-- The answer of a route that has some other handler. -/
def respondBy (handler : Response) (license : License) (method : String) (route : Route) :
    Response :=
  if answeredMethods.contains method then (route.gated license handler).measured
  else
    (route.gated license (.bare 405)).measured.withHeader "allow"
      (String.intercalate "," answeredMethods)

section RespondBy

variable {method : String}

theorem respondBy_of_isOpenTo (hmethod : method ∈ answeredMethods) (hopen : route.IsOpenTo license)
    (handler : Response) : route.respondBy handler license method = handler.measured := by
  rw [respondBy, gated_of_isOpenTo hopen, if_pos (List.contains_iff_mem.mpr hmethod)]

/-- A route answers the same whatever its handler is, unless it is open and the method is
answered. -/
theorem respondBy_congr (hkept : ¬ (method ∈ answeredMethods ∧ route.IsOpenTo license))
    (handler other : Response) :
    route.respondBy handler license method = route.respondBy other license method := by
  unfold respondBy
  by_cases hmethod : method ∈ answeredMethods
  · obtain ⟨denial, hdenied⟩ := gated_of_not_isOpenTo fun hopen => hkept ⟨hmethod, hopen⟩
    rw [hdenied handler, hdenied other]
  · simp [hmethod]

end RespondBy

theorem body_respond_eq_feed_iff {method : String} {first : Custody.Event} :
    (route.respond license method).body = .feed first ↔
      method ∈ answeredMethods ∧ route.IsOpenTo license ∧ route = .events ∧
        first = .inEffect license := by
  by_cases hopen : route.IsOpenTo license
  · by_cases hmethod : method ∈ answeredMethods
    · simp [respond, hmethod, hopen, gated_of_isOpenTo, body_answer_eq_feed_iff]
    · simp [respond, hmethod, gated_of_isOpenTo hopen, Response.bare]
  · obtain ⟨denial, hdenied⟩ := gated_of_not_isOpenTo hopen
    by_cases hmethod : method ∈ answeredMethods <;>
      simp [respond, hmethod, hopen, hdenied, ofFeatureDenial, Response.json]

/-- The gate comes before the method, so a method that is never answered is denied as well. -/
theorem respond_denied {feature : Feature} (hrequired : route.feature? = some feature)
    (hfeature : license.hasFeature feature = false) (method : String) :
    (route.respond license method).status = paymentRequired ∧
      (route.respond license method).body =
        .complete (FeatureDenial.toJson ⟨feature, Feature.minimumTier feature, license.tier⟩) := by
  have hdenied := gated_of_not_hasFeature hrequired hfeature
  by_cases hmethod : method ∈ answeredMethods <;>
    simp [respond, hmethod, hdenied, ofFeatureDenial, Response.json]

end Route

/-! ## Requests -/

/-- The answer to a request where the routes have some other handlers. -/
def respondBy (handlers : Route → Response) (license : License) (request : Request) : Response :=
  let route? := Route.ofPath? request.path
  if request.method = preflightMethod then openToOrigins (preflight route?)
  else
    let response :=
      match route? with
      | none => (Response.bare 404).measured
      | some route => route.respondBy (handlers route) license request.method
    let response := if request.method = "HEAD" then response.withoutBody else response
    openToOrigins (response.withHeader "access-control-expose-headers" "*")

section Requests

variable {request : Request}

theorem respond_eq_respondBy (license : License) (request : Request) :
    respond license request = respondBy (Route.answer license) license request :=
  rfl

theorem status_respondBy {route : Route} (hmethod : request.method ≠ preflightMethod)
    (hroute : Route.ofPath? request.path = some route) (handlers : Route → Response) :
    (respondBy handlers license request).status =
      (route.respondBy (handlers route) license request.method).status := by
  rw [respondBy, if_neg hmethod, hroute]
  by_cases hhead : request.method = "HEAD" <;> simp [hhead]

/-- A request gets through to a handler if and only if it asks with a method that routes answer, on
the path of a route, and the license has what the route requires. -/
theorem getsThrough_respondBy :
    GetsThrough (respondBy · license request) ↔
      request.method ∈ answeredMethods ∧
        ∃ route : Route, request.path = route.path ∧ route.IsOpenTo license := by
  simp only [← Route.ofPath?_eq_some_iff]
  constructor
  · rintro ⟨handlers, others, hdiffer⟩
    apply Classical.byContradiction
    intro hkept
    apply hdiffer
    unfold respondBy
    cases hroute : Route.ofPath? request.path with
    | none => rfl
    | some route =>
        have hsame := Route.respondBy_congr
          (fun hthrough => hkept ⟨hthrough.1, route, hroute, hthrough.2⟩) (handlers route)
          (others route)
        dsimp only
        rw [hsame]
  · rintro ⟨hanswered, route, hroute, hopen⟩
    have hmethod : request.method ≠ preflightMethod := by
      intro hpreflight
      rw [hpreflight] at hanswered
      exact absurd hanswered (by decide)
    refine ⟨fun _ => .bare 200, fun _ => .bare 500, fun hsame => ?_⟩
    have hstatus := congrArg Response.status hsame
    rw [status_respondBy hmethod hroute, status_respondBy hmethod hroute,
      Route.respondBy_of_isOpenTo hanswered hopen, Route.respondBy_of_isOpenTo hanswered hopen]
      at hstatus
    exact absurd hstatus (by decide)

/-! ## The feed -/

theorem body_preflight (route? : Option Route) : (preflight route?).body = .complete "" := by
  cases route? <;> simp [preflight, Response.bare]

theorem body_respond {route : Route} (hmethod : request.method ≠ preflightMethod)
    (hroute : Route.ofPath? request.path = some route) :
    (respond license request).body =
      if request.method = "HEAD" then .complete ""
      else (route.respond license request.method).body := by
  rw [respond, if_neg hmethod, hroute]
  by_cases hhead : request.method = "HEAD" <;> simp [hhead]

theorem body_respond_of_preflight (hmethod : request.method = preflightMethod) :
    (respond license request).body = .complete "" := by
  rw [respond, if_pos hmethod, Response.body_openToOrigins, body_preflight]

theorem body_respond_of_no_route (hroute : Route.ofPath? request.path = none) :
    (respond license request).body = .complete "" := by
  unfold respond
  rw [hroute]
  split
  next => simp [body_preflight]
  next => split <;> simp [Response.bare]

/-- The feed is the answer to GET on its own path, as long as the license has the feature, and to
nothing else. It starts with the license in force. -/
theorem body_respond_eq_feed_iff {first : Custody.Event} :
    (respond license request).body = .feed first ↔
      request.method = "GET" ∧ request.path = Route.events.path ∧
        license.hasFeature Feature.auditLogs = true ∧ first = .inEffect license := by
  rw [← Route.ofPath?_eq_some_iff]
  by_cases hmethod : request.method = preflightMethod
  · rw [body_respond_of_preflight hmethod, hmethod]
    simp [preflightMethod]
  cases hroute : Route.ofPath? request.path with
  | none => simp [body_respond_of_no_route hroute]
  | some route =>
      rw [body_respond hmethod hroute]
      by_cases hhead : request.method = "HEAD"
      · simp [hhead]
      rw [if_neg hhead, Route.body_respond_eq_feed_iff]
      constructor
      · rintro ⟨hanswered, hopen, rfl, hfirst⟩
        exact ⟨by simpa [answeredMethods, hhead] using hanswered, rfl,
          Route.isOpenTo_iff.mp hopen rfl, hfirst⟩
      · rintro ⟨hget, hevents, hfeature, hfirst⟩
        cases Option.some.inj hevents
        exact ⟨by simp [answeredMethods, hget], Route.isOpenTo_iff.mpr fun _ => hfeature, rfl,
          hfirst⟩

/-- Without the feature, whatever is asked on the path of the feed is answered with the denial. -/
theorem respond_denied (hfeature : license.hasFeature Feature.auditLogs = false)
    (hpath : request.path = Route.events.path) (hmethod : request.method ≠ preflightMethod) :
    (respond license request).status = paymentRequired ∧
      (respond license request).body = .complete (if request.method = "HEAD" then "" else
        FeatureDenial.toJson ⟨Feature.auditLogs, some .business, license.tier⟩) := by
  have hroute := Route.ofPath?_eq_some_iff.mpr hpath
  have hrequired : Route.events.feature? = some Feature.auditLogs := rfl
  obtain ⟨hstatus, hbody⟩ := Route.respond_denied hrequired hfeature request.method
  refine ⟨(status_respondBy hmethod hroute _).trans hstatus, ?_⟩
  rw [body_respond hmethod hroute, hbody]
  split <;> rfl

end Requests

end Entitlement.Http
