import Entitlement.Grant.Claims
import Entitlement.Proofs.Calendar.Rfc3339
import Entitlement.Proofs.Json.Canonical
import Entitlement.Proofs.Json.Members

/-! # Claims survive being written and read

A claims document is read back to the claims it was written for, whatever order its members were put
in. Both the plain document and the canonical one are instances: they differ in the arrangement of
members and in nothing else.
-/

namespace Entitlement.Grant

open Calendar Plan Text
open Json (Reader Member)
open Json.Reader (Given)

/-- An arrangement that only reorders members. -/
def Arrangement.IsOrder (arrange : Arrangement) : Prop :=
  ∀ ms : List Member, (arrange ms).Perm ms

theorem Arrangement.isOrder_canonicalOrder : IsOrder Json.canonicalOrder :=
  Json.canonicalOrder_perm

namespace Claims

theorem isOrder_id : Arrangement.IsOrder fun members => members :=
  fun ms => List.Perm.refl ms

/-- The members of a claims document, given the written ends of the window. -/
def members (arrange : Arrangement) (claims : Claims) (issuedAt expiresAt : String) :
    List Member :=
  [("id", Json.string claims.id),
    ("customer_id", Json.string claims.customerId),
    ("customer_name", Json.string claims.customerName),
    ("email", Json.string claims.email),
    ("type", Json.string claims.licenseType.name),
    ("tier", Json.string claims.tier.name),
    ("issued_at", Json.string issuedAt),
    ("expires_at", Json.string expiresAt),
    ("features", writeNames claims.features),
    ("limits", writeLimits arrange claims.limits),
    ("metadata", writeMetadata arrange claims.metadata)]

theorem write?_eq_some_iff {arrange : Arrangement} {claims : Claims} {text : String} :
    claims.write? arrange = some text ↔
      ∃ issuedAt expiresAt, Rfc3339.format? claims.issuedAt = some issuedAt ∧
        Rfc3339.format? claims.expiresAt = some expiresAt ∧
        text = Json.object (arrange (claims.members arrange issuedAt expiresAt)) := by
  unfold write?
  simp only [Option.bind_eq_bind, Option.bind_eq_some_iff, Option.pure_def, Option.some.injEq]
  constructor
  · rintro ⟨issuedAt, hissued, expiresAt, hexpires, rfl⟩
    exact ⟨issuedAt, expiresAt, hissued, hexpires, rfl⟩
  · rintro ⟨issuedAt, expiresAt, hissued, hexpires, rfl⟩
    exact ⟨issuedAt, hissued, expiresAt, hexpires, rfl⟩

/-! ## Values -/

theorem takes_timestamp {t : Timestamp} {text : String} (htext : Rfc3339.format? t = some text) :
    timestampReader.Takes (Json.string text) t := by
  refine (Reader.takes_text _ text).check ?_
  rw [Rfc3339.parse_format htext]
  rfl

theorem takes_tier (tier : Tier) : tierReader.Takes (Json.string tier.name) tier := by
  apply Reader.takes_choice
  cases tier <;> rfl

theorem takes_licenseType (kind : LicenseType) :
    licenseTypeReader.Takes (Json.string kind.name) kind := by
  apply Reader.takes_choice
  cases kind <;> rfl

theorem takes_limits {arrange : Arrangement} (horder : Arrangement.IsOrder arrange)
    (limits : Limits) : limitsReader.Takes (writeLimits arrange limits) limits :=
  (Reader.takes_table Reader.takes_word64 limits.table (horder _)).map Limits.mk

theorem takes_metadata {arrange : Arrangement} (horder : Arrangement.IsOrder arrange)
    (metadata : Table String) :
    (Reader.table Reader.string).Takes (writeMetadata arrange metadata) metadata :=
  Reader.takes_table Reader.takes_string metadata (horder _)

/-! ## Drafts -/

/-- What has been read of claims when some of their members have been given. -/
def draft (claims : Claims) (given : Given) : Draft where
  id := if given "id" then some claims.id else none
  customerId := if given "customer_id" then some claims.customerId else none
  customerName := if given "customer_name" then some claims.customerName else none
  email := if given "email" then some claims.email else none
  licenseType := if given "type" then some claims.licenseType else none
  tier := if given "tier" then some claims.tier else none
  issuedAt := if given "issued_at" then some claims.issuedAt else none
  expiresAt := if given "expires_at" then some claims.expiresAt else none
  features := if given "features" then some claims.features else none
  limits := if given "limits" then some claims.limits else none
  metadata := if given "metadata" then some claims.metadata else none

/-- Every member adds its value to a draft, whichever members have been given before it. -/
theorem member_draft {arrange : Arrangement} (horder : arrange.IsOrder)
    {claims : Claims} {issuedAt expiresAt : String}
    (hissued : Rfc3339.format? claims.issuedAt = some issuedAt)
    (hexpires : Rfc3339.format? claims.expiresAt = some expiresAt) :
    ∀ m ∈ claims.members arrange issuedAt expiresAt, ∀ given : Given, given m.1 = false →
      ∃ reader : Reader Draft, record.member (claims.draft given) m.1 = .ok reader ∧
        reader.Takes m.2 (claims.draft (given.add m.1)) := by
  intro m hm given hnew
  simp only [members, List.mem_cons, List.not_mem_nil, or_false] at hm
  -- One case for each member, in the order of the record.
  rcases hm with rfl | rfl | rfl | rfl | rfl | rfl | rfl | rfl | rfl | rfl | rfl
  · exact Json.Record.exists_reader rfl (by simp [draft, hnew]) (Reader.takes_string claims.id)
      (by simp [draft, Given.add])
  · exact Json.Record.exists_reader rfl (by simp [draft, hnew])
      (Reader.takes_string claims.customerId) (by simp [draft, Given.add])
  · exact Json.Record.exists_reader rfl (by simp [draft, hnew])
      (Reader.takes_string claims.customerName) (by simp [draft, Given.add])
  · exact Json.Record.exists_reader rfl (by simp [draft, hnew]) (Reader.takes_string claims.email)
      (by simp [draft, Given.add])
  · exact Json.Record.exists_reader rfl (by simp [draft, hnew])
      (takes_licenseType claims.licenseType) (by simp [draft, Given.add])
  · exact Json.Record.exists_reader rfl (by simp [draft, hnew]) (takes_tier claims.tier)
      (by simp [draft, Given.add])
  · exact Json.Record.exists_reader rfl (by simp [draft, hnew]) (takes_timestamp hissued)
      (by simp [draft, Given.add])
  · exact Json.Record.exists_reader rfl (by simp [draft, hnew]) (takes_timestamp hexpires)
      (by simp [draft, Given.add])
  · exact Json.Record.exists_reader rfl (by simp [draft, hnew]) (Reader.takes_names claims.features)
      (by simp [draft, Given.add])
  · exact Json.Record.exists_reader rfl (by simp [draft, hnew]) (takes_limits horder claims.limits)
      (by simp [draft, Given.add])
  · exact Json.Record.exists_reader rfl (by simp [draft, hnew])
      (takes_metadata horder claims.metadata) (by simp [draft, Given.add])

/-- The names of the members of a claims document. -/
def memberNames : List String :=
  ["id", "customer_id", "customer_name", "email", "type", "tier", "issued_at", "expires_at",
    "features", "limits", "metadata"]

/-- Once every member has been given, the draft is complete and holds the claims. -/
theorem draft_complete (claims : Claims) {given : Given}
    (hall : ∀ name ∈ memberNames, given name = true) :
    record.complete (claims.draft given) = .ok (claims.draft given) ∧
      ofDraft (claims.draft given) = .ok claims := by
  simp only [memberNames, List.forall_mem_cons, List.not_mem_nil, false_implies, implies_true,
    and_true] at hall
  obtain ⟨h1, h2, h3, h4, h5, h6, h7, h8, h9, h10, h11⟩ := hall
  constructor
  · simp [Json.Record.complete, record, draft, h1, h2, h3, h4, h5, h6, h7, h8]
  · simp [ofDraft, required, draft, h1, h2, h3, h4, h5, h6, h7, h8, h9, h10, h11, bind,
      Except.bind, pure, Except.pure]

/-- Claims are taken from a document of their members in any order. -/
theorem takes_object {arrange : Arrangement} (horder : arrange.IsOrder) {claims : Claims}
    {issuedAt expiresAt : String} (hissued : Rfc3339.format? claims.issuedAt = some issuedAt)
    (hexpires : Rfc3339.format? claims.expiresAt = some expiresAt) {ms : List Member}
    (hms : ms.Perm (claims.members arrange issuedAt expiresAt)) :
    reader.Takes (Json.object ms) claims :=
  Json.Record.takes_perm rfl (member_draft horder hissued hexpires)
    (show memberNames.Nodup by decide) (fun _ hall => draft_complete claims hall) hms

/-- Claims are read back from their document, in whatever order its members are arranged. -/
theorem ofBytes_write {arrange : Arrangement} (horder : arrange.IsOrder) {claims : Claims}
    {text : String} (htext : claims.write? arrange = some text) :
    ofBytes (bytes text) = .ok claims := by
  obtain ⟨issuedAt, expiresAt, hissued, hexpires, rfl⟩ := write?_eq_some_iff.mp htext
  exact (takes_object horder hissued hexpires (horder _)).read

end Claims

end Entitlement.Grant
