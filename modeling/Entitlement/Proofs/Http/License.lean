import Entitlement.Proofs.Grant.License
import Entitlement.Proofs.Grant.Limits
import Entitlement.Proofs.Http.Router
import Entitlement.Proofs.Json.Written
import Entitlement.Proofs.Key.Document

/-! # The license as it is shown

Whoever asks for the license in force is shown a document whose list of features is the list that
the license goes by: each feature that it has once, in the order of their bytes. There is such a
document for every license that is genuine, since the window of a license has been read from a
document itself.
-/

namespace Entitlement.Grant.License

open Calendar

variable {license : License}

/-- A license is Community's own, or its claims have been verified with some key. -/
def IsGenuine (license : License) : Prop :=
  license = .community ∨ ∃ scheme trusted key now, Key.verify scheme trusted key now = .ok license

/-- The window of a genuine license can be written. -/
theorem IsGenuine.isWritable (hgenuine : license.IsGenuine) : license.claims.IsWritable := by
  rcases hgenuine with rfl | ⟨scheme, trusted, key, now, hverify⟩
  · exact ⟨Rfc3339.exists_format_iff.mpr (by decide), Rfc3339.exists_format_iff.mpr (by decide)⟩
  · obtain ⟨envelope, claims, -, -, hclaims, -, rfl⟩ := Key.verify_eq_ok_iff.mp hverify
    exact Claims.isWritable_of_ofBytes hclaims

end Entitlement.Grant.License

namespace Entitlement.Http

open Grant Json Plan

variable {license : License}

/-! ## The document -/

/-- A set of names as a tree. -/
def namesTree (names : NameSet) : Tree :=
  .array ((names.toList.map bodyOf).map .string)

theorem isWritten_names (names : NameSet) :
    IsWritten (namesTree names) (Claims.writeNames names) := by
  apply isWritten_array
  rw [List.map_map, List.forall₂_map_left_iff, List.forall₂_map_right_iff, List.forall₂_same]
  exact fun name _ => isWritten_string name

/-- What is shown of a license, member by member. -/
def shownMembers (license : License) (issuedAt expiresAt : String) : List (String × Tree) :=
  [("id", .string (bodyOf license.id)),
    ("community", .truth license.isCommunity),
    ("edition", .string (bodyOf license.tier.edition)),
    ("tier", .string (bodyOf license.tier.name)),
    ("type", .string (bodyOf license.claims.licenseType.name)),
    ("issued_at", .string (bodyOf issuedAt)),
    ("expires_at", .string (bodyOf expiresAt)),
    ("features", namesTree license.effectiveFeatures),
    ("limits", Claims.limitsTree license.claims.limits)]

theorem isWritten_licenseDocument {document : String}
    (hdocument : licenseDocument? license = some document) :
    ∃ issuedAt expiresAt, IsWritten
      (.object ((shownMembers license issuedAt expiresAt).map writtenMember)) document := by
  simp only [licenseDocument?, Option.bind_eq_bind, Option.bind_eq_some_iff, Option.pure_def,
    Option.some.injEq] at hdocument
  obtain ⟨issuedAt, -, expiresAt, -, rfl⟩ := hdocument
  refine ⟨issuedAt, expiresAt, isWritten_object ?_⟩
  exact .cons ⟨rfl, isWritten_string _⟩ <| .cons ⟨rfl, isWritten_bool _⟩ <|
    .cons ⟨rfl, isWritten_string _⟩ <| .cons ⟨rfl, isWritten_string _⟩ <|
    .cons ⟨rfl, isWritten_string _⟩ <| .cons ⟨rfl, isWritten_string _⟩ <|
    .cons ⟨rfl, isWritten_string _⟩ <| .cons ⟨rfl, isWritten_names _⟩ <|
    .cons ⟨rfl, Claims.isWritten_limits _⟩ .nil

/-- The list in the document of a license is that of the features that the license has. -/
theorem holdsNames_licenseDocument {document : String}
    (hdocument : licenseDocument? license = some document) :
    HoldsNames document "features" license.effectiveFeatures.toList := by
  obtain ⟨issuedAt, expiresAt, hwritten⟩ := isWritten_licenseDocument hdocument
  refine ⟨_, license.effectiveFeatures.toList.map bodyOf, hwritten.isDocument, ?_, ?_⟩
  · simp [shownMembers, writtenMember, namesTree]
  · simp

theorem exists_licenseDocument (hwritable : license.claims.IsWritable) :
    ∃ document, licenseDocument? license = some document := by
  obtain ⟨⟨issuedAt, hissued⟩, expiresAt, hexpires⟩ := hwritable
  exact ⟨_, by simp only [licenseDocument?, hissued, hexpires]; rfl⟩

/-- The answer to whoever asks for the license: its document, or a failure where there is none. -/
theorem respond_license (license : License) {request : Request} (hmethod : request.method = "GET")
    (hpath : request.path = Route.license.path) :
    (respond license request).status = (Route.license.answer license).status ∧
      (respond license request).body = (Route.license.answer license).body := by
  have hroute := Route.ofPath?_eq_some_iff.mpr hpath
  have hpreflight : request.method ≠ preflightMethod := by
    rw [hmethod]
    decide
  have hanswered : "GET" ∈ answeredMethods := by decide
  have hopen : Route.license.IsOpenTo license :=
    Route.isOpenTo_iff.mpr fun hevents => nomatch hevents
  constructor
  · rw [respond_eq_respondBy, status_respondBy hpreflight hroute, hmethod,
      Route.respondBy_of_isOpenTo hanswered hopen, Response.status_measured]
  · rw [body_respond hpreflight hroute, hmethod, if_neg (by decide)]
    exact Response.body_measured _

/-- Where the license is shown, its document is. -/
theorem licenseDocument_of_answer {document : String}
    (hstatus : (Route.license.answer license).status = 200)
    (hbody : (Route.license.answer license).body = .complete document) :
    licenseDocument? license = some document := by
  unfold Route.answer at hstatus hbody
  dsimp only at hstatus hbody
  split at hbody
  next hdocument =>
    rw [hdocument]
    exact congrArg some (Body.complete.inj hbody)
  next hnone =>
    rw [hnone] at hstatus
    exact absurd hstatus (by decide)

end Entitlement.Http
