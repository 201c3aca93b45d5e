import Entitlement.Proofs.Json.Value
import Entitlement.Proofs.Key.Issue
import Entitlement.Proofs.Text.Order

/-! # Payloads are canonical

What is signed for some claims is the canonical form of their document and nothing else. There is
one payload for each choice of claims, and no two choices share one.
-/

namespace Entitlement.Grant.Claims

open Calendar Json

/-- The document of claims as a value, given the written ends of the window. -/
def value (claims : Claims) (issuedAt expiresAt : String) : Value :=
  .record
    [("id", .text claims.id),
      ("customer_id", .text claims.customerId),
      ("customer_name", .text claims.customerName),
      ("email", .text claims.email),
      ("type", .text claims.licenseType.name),
      ("tier", .text claims.tier.name),
      ("issued_at", .text issuedAt),
      ("expires_at", .text expiresAt),
      ("features", .list (claims.features.toList.map .text)),
      ("limits", .record (claims.limits.entries.map fun entry => (entry.1, .number entry.2.toNat))),
      ("metadata", .record (claims.metadata.toList.map fun entry => (entry.1, .text entry.2)))]

theorem canonical_names (names : NameSet) :
    Canonical (.list (names.toList.map .text)) (writeNames names) := by
  apply canonical_array
  rw [List.forall₂_map_left_iff, List.forall₂_map_right_iff, List.forall₂_same]
  exact fun name _ => canonical_string name

/-- The entries of a table as an object. -/
theorem canonical_table {α : Type} (table : Table α) {read : α → Value} {write : α → String}
    (hwrite : ∀ value, Canonical (read value) (write value)) :
    Canonical (.record (table.toList.map fun entry => (entry.1, read entry.2)))
      (object (canonicalOrder (table.toList.map fun entry => (entry.1, write entry.2)))) := by
  apply canonical_object
  · rw [List.forall₂_map_left_iff, List.forall₂_map_right_iff, List.forall₂_same]
    exact fun entry _ => ⟨rfl, hwrite entry.2⟩
  · rw [List.pairwise_map]
    exact table.pairwise_ne

theorem canonical_limits (claims : Claims) :
    Canonical (.record (claims.limits.entries.map fun entry => (entry.1, .number entry.2.toNat)))
      (writeLimits canonicalOrder claims.limits) :=
  canonical_table claims.limits.table fun ceiling => canonical_nat ceiling.toNat

theorem canonical_metadata (claims : Claims) :
    Canonical (.record (claims.metadata.toList.map fun entry => (entry.1, .text entry.2)))
      (writeMetadata canonicalOrder claims.metadata) :=
  canonical_table claims.metadata canonical_string

theorem canonical_members (claims : Claims) (issuedAt expiresAt : String) :
    Canonical (claims.value issuedAt expiresAt)
      (object (canonicalOrder (claims.members canonicalOrder issuedAt expiresAt))) := by
  apply canonical_object
  · refine .cons ⟨rfl, canonical_string _⟩ <| .cons ⟨rfl, canonical_string _⟩ <|
      .cons ⟨rfl, canonical_string _⟩ <| .cons ⟨rfl, canonical_string _⟩ <|
      .cons ⟨rfl, canonical_string _⟩ <| .cons ⟨rfl, canonical_string _⟩ <|
      .cons ⟨rfl, canonical_string _⟩ <| .cons ⟨rfl, canonical_string _⟩ <|
      .cons ⟨rfl, canonical_names _⟩ <| .cons ⟨rfl, canonical_limits _⟩ <|
      .cons ⟨rfl, canonical_metadata _⟩ .nil
  · have hnodup : memberNames.Nodup := by decide
    exact List.pairwise_map.mp hnodup

/-- The features stand in the order of their bytes. -/
theorem bytes_features (claims : Claims) :
    claims.features.toList.Pairwise fun a b => Text.bytes a < Text.bytes b :=
  claims.features.isAscending.imp Text.bytes_lt

end Entitlement.Grant.Claims

namespace Entitlement.Key

open Calendar Grant Signature

/-- The payload of claims is the one canonical form of their document: without blanks, with the
shortest escapes, with plain numbers for the limits, and with the members of every object in the
order of the code units of their names, while features ascend by their bytes. Reading it and writing
it again gives the same bytes, and payloads are equal exactly if all that the claims say is. -/
theorem canonicalPayload_canonical {claims : Claims} {payload : List UInt8}
    (hpayload : canonicalPayload claims = .ok payload) :
    (∃ issuedAt expiresAt document,
      Rfc3339.format? claims.issuedAt = some issuedAt ∧
        Rfc3339.format? claims.expiresAt = some expiresAt ∧
        Json.Canonical (claims.value issuedAt expiresAt) document ∧
        (∀ other, Json.Canonical (claims.value issuedAt expiresAt) other → other = document) ∧
        payload = Text.bytes document) ∧
    (claims.features.toList.Pairwise fun a b => Text.bytes a < Text.bytes b) ∧
    (∃ read, Claims.ofBytes payload = .ok read ∧ canonicalPayload read = .ok payload) ∧
    ∀ claims' payload', canonicalPayload claims' = .ok payload' →
      (payload = payload' ↔ claims = claims') := by
  refine ⟨?_, claims.bytes_features, ?_, ?_⟩
  · obtain ⟨-, -, document, hdocument, rfl⟩ := canonicalPayload_eq_ok_iff.mp hpayload
    obtain ⟨issuedAt, expiresAt, hissued, hexpires, rfl⟩ := Claims.write?_eq_some_iff.mp hdocument
    have hcanonical := claims.canonical_members issuedAt expiresAt
    exact ⟨issuedAt, expiresAt, _, hissued, hexpires, hcanonical,
      fun other hother => hother.unique hcanonical, rfl⟩
  · exact ⟨claims, ofBytes_canonicalPayload hpayload, hpayload⟩
  · intro claims' payload' hpayload'
    constructor
    · rintro rfl
      have hread := ofBytes_canonicalPayload hpayload
      rw [ofBytes_canonicalPayload hpayload'] at hread
      exact (Except.ok.inj hread).symm
    · rintro rfl
      exact Except.ok.inj (hpayload.symm.trans hpayload')

/-- The claims of the sample for another customer, with metadata whose names ascend one way by their
bytes and the other way by their code units. -/
def otherClaims : Claims :=
  { sampleClaims with
    customerId := "d", customerName := "ö", email := "o@example.org"
    metadata := ((∅ : Table String).set "～" "1").set "𝄞" "2" }

/-- The members of the other claims in the order of their canonical document. -/
def otherMembers : List Json.Member :=
  [("customer_id", "\"d\""), ("customer_name", "\"ö\""), ("email", "\"o@example.org\""),
    ("expires_at", "\"2027-02-01T09:30:15.5Z\""), ("features", "[\"scim\"]"),
    ("id", "\"a\\\"b\\n\\u0001𝄞\""), ("issued_at", "\"2026-02-01T09:30:15.123456789-05:30\""),
    ("limits", "\x7b\"seats\":9007199254740991\x7d"),
    ("metadata", "\x7b\"𝄞\":\"2\",\"～\":\"1\"\x7d"), ("tier", "\"pro\""), ("type", "\"trial\"")]

theorem canonicalPayload_otherClaims :
    canonicalPayload otherClaims = .ok (Text.bytes (Json.object otherMembers)) := by
  have hlimits : Claims.writeLimits Json.canonicalOrder otherClaims.limits =
      "\x7b\"seats\":9007199254740991\x7d" := writeLimits_sampleClaims
  have hentries : otherClaims.metadata.toList = [("～", "1"), ("𝄞", "2")] := by decide
  have hmetadata : Claims.writeMetadata Json.canonicalOrder otherClaims.metadata =
      "\x7b\"𝄞\":\"2\",\"～\":\"1\"\x7d" := by
    rw [Claims.writeMetadata, hentries]
    change Json.object (Json.canonicalOrder [("～", Json.string "1"), ("𝄞", Json.string "2")]) = _
    rw [Json.canonicalOrder_eq (List.Perm.swap ("～", Json.string "1") ("𝄞", Json.string "2") [])
      (by decide)]
    decide
  refine canonicalPayload_of_ordered "2026-02-01T09:30:15.123456789-05:30"
    "2027-02-01T09:30:15.5Z" otherMembers (by decide) (by decide)
    (by decide) (by decide) ?_ (by decide) rfl
  rw [Claims.members, hlimits, hmetadata]
  decide

/-- The other claims keep the metadata in the order of bytes, and their payload has them in the
order of code units. It is the canonical form of the document, and it differs from the payload of
the sample. -/
theorem canonicalPayload_canonical_otherClaims :
    otherClaims.metadata.toList.map Prod.fst = ["～", "𝄞"] ∧
      canonicalPayload otherClaims = .ok (Text.bytes (Json.object otherMembers)) ∧
      (∃ issuedAt expiresAt document,
        Json.Canonical (otherClaims.value issuedAt expiresAt) document ∧
          Text.bytes (Json.object otherMembers) = Text.bytes document) ∧
      Text.bytes (Json.object otherMembers) ≠ Text.bytes sampleDocument := by
  obtain ⟨⟨issuedAt, expiresAt, document, -, -, hcanonical, -, hbytes⟩, -, -, hequal⟩ :=
    canonicalPayload_canonical canonicalPayload_otherClaims
  refine ⟨by decide, canonicalPayload_otherClaims,
    ⟨issuedAt, expiresAt, document, hcanonical, hbytes⟩, ?_⟩
  intro hsame
  have hclaims := (hequal sampleClaims _ canonicalPayload_sampleClaims).mp hsame
  exact absurd (congrArg Claims.customerId hclaims) (by decide)

end Entitlement.Key
