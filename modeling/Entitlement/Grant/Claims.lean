import Entitlement.Ascending
import Entitlement.Calendar.Rfc3339
import Entitlement.Json.Canonical
import Entitlement.Json.Record
import Entitlement.Plan.Feature
import Entitlement.Plan.Limits

/-! # Claims

Claims are what a license says: who it was sold to, for which plan and window, and what it grants
beyond the plan. They are plain data; nothing here has been authenticated. Claims are written as a
JSON object, and any document that holds the same members in another order or spelling is read to
the same claims.
-/

namespace Entitlement.Grant

open Plan Calendar

/-- What a license says. The window starts at `issuedAt` and ends before `expiresAt`. -/
structure Claims where
  id : String
  customerId : String
  customerName : String
  email : String
  licenseType : LicenseType
  tier : Tier
  issuedAt : Timestamp
  expiresAt : Timestamp
  features : NameSet
  limits : Limits
  metadata : Table String
  deriving DecidableEq

/-- Whether the window does not end before it starts. -/
def Claims.hasValidWindow (claims : Claims) : Bool :=
  claims.issuedAt ≤ claims.expiresAt

/-! ## Writing -/

/-- An order in which the members of objects are written. -/
abbrev Arrangement := List Json.Member → List Json.Member

namespace Claims

/-- The limits as a JSON object. -/
def writeLimits (arrange : Arrangement) (limits : Limits) : String :=
  Json.object (arrange (limits.entries.map fun (name, ceiling) => (name, Json.nat ceiling.toNat)))

/-- The metadata as a JSON object. -/
def writeMetadata (arrange : Arrangement) (metadata : Table String) : String :=
  Json.object (arrange (metadata.toList.map fun (name, value) => (name, Json.string value)))

/-- A set of names as a JSON array. -/
def writeNames (names : NameSet) : String :=
  Json.array (names.toList.map Json.string)

/-- The claims as a JSON object, if both ends of the window have a written form. -/
def write? (arrange : Arrangement) (claims : Claims) : Option String := do
  let issuedAt ← Rfc3339.format? claims.issuedAt
  let expiresAt ← Rfc3339.format? claims.expiresAt
  return Json.object <| arrange
    [("id", Json.string claims.id),
      ("customer_id", Json.string claims.customerId),
      ("customer_name", Json.string claims.customerName),
      ("email", Json.string claims.email),
      ("type", Json.string claims.licenseType.name),
      ("tier", Json.string claims.tier.name),
      ("issued_at", Json.string issuedAt),
      ("expires_at", Json.string expiresAt),
      ("features", writeNames claims.features),
      ("limits", writeLimits arrange claims.limits),
      ("metadata", writeMetadata arrange claims.metadata)]

/-- The claims with their members in the order of the record. -/
def toJson? (claims : Claims) : Option String :=
  claims.write? fun members => members

/-- The canonical document of the claims, over which signatures are made. -/
def toCanonical? (claims : Claims) : Option String :=
  claims.write? Json.canonicalOrder

end Claims

/-! ## Reading -/

/-- Claims of which some members may not have been read. -/
structure Draft where
  id : Option String := none
  customerId : Option String := none
  customerName : Option String := none
  email : Option String := none
  licenseType : Option LicenseType := none
  tier : Option Tier := none
  issuedAt : Option Timestamp := none
  expiresAt : Option Timestamp := none
  features : Option NameSet := none
  limits : Option Limits := none
  metadata : Option (Table String) := none

namespace Claims

/-- Reads a timestamp from a string. -/
def timestampReader : Json.Reader Timestamp :=
  (Json.Reader.text "an RFC3339-formatted `OffsetDateTime`").check fun text =>
    (Rfc3339.parse text).mapError fun e => .misread e.message

/-- Reads the name of a tier. -/
def tierReader : Json.Reader Tier :=
  .choice (Tier.all.map fun tier => (tier.name, tier))

/-- Reads the name of a license type. -/
def licenseTypeReader : Json.Reader LicenseType :=
  .choice (LicenseType.all.map fun kind => (kind.name, kind))

/-- Reads limits. -/
def limitsReader : Json.Reader Limits :=
  (Json.Reader.table Json.Reader.word64).map Limits.mk

/-- The members of a claims document. The grants beyond the plan may be left out. -/
def record : Json.Record Draft where
  title := "struct LicenseClaims"
  start := {}
  fields :=
    [⟨"id", true, (·.id.isSome), fun draft =>
        Json.Reader.string.map fun value => { draft with id := some value }⟩,
      ⟨"customer_id", true, (·.customerId.isSome), fun draft =>
        Json.Reader.string.map fun value => { draft with customerId := some value }⟩,
      ⟨"customer_name", true, (·.customerName.isSome), fun draft =>
        Json.Reader.string.map fun value => { draft with customerName := some value }⟩,
      ⟨"email", true, (·.email.isSome), fun draft =>
        Json.Reader.string.map fun value => { draft with email := some value }⟩,
      ⟨"type", true, (·.licenseType.isSome), fun draft =>
        licenseTypeReader.map fun value => { draft with licenseType := some value }⟩,
      ⟨"tier", true, (·.tier.isSome), fun draft =>
        tierReader.map fun value => { draft with tier := some value }⟩,
      ⟨"issued_at", true, (·.issuedAt.isSome), fun draft =>
        timestampReader.map fun value => { draft with issuedAt := some value }⟩,
      ⟨"expires_at", true, (·.expiresAt.isSome), fun draft =>
        timestampReader.map fun value => { draft with expiresAt := some value }⟩,
      ⟨"features", false, (·.features.isSome), fun draft =>
        Json.Reader.names.map fun value => { draft with features := some value }⟩,
      ⟨"limits", false, (·.limits.isSome), fun draft =>
        limitsReader.map fun value => { draft with limits := some value }⟩,
      ⟨"metadata", false, (·.metadata.isSome), fun draft =>
        (Json.Reader.table Json.Reader.string).map fun value =>
          { draft with metadata := some value }⟩]

/-- The value of a member that has to be given. -/
def required {α : Type} (name : String) : Option α → Except Json.ReadError α
  | some value => .ok value
  | none => .error (.missingMember name)

/-- The claims of a draft, where grants that were left out are empty. -/
def ofDraft (draft : Draft) : Except Json.ReadError Claims := do
  return {
    id := ← required "id" draft.id
    customerId := ← required "customer_id" draft.customerId
    customerName := ← required "customer_name" draft.customerName
    email := ← required "email" draft.email
    licenseType := ← required "type" draft.licenseType
    tier := ← required "tier" draft.tier
    issuedAt := ← required "issued_at" draft.issuedAt
    expiresAt := ← required "expires_at" draft.expiresAt
    features := draft.features.getD ∅
    limits := draft.limits.getD .empty
    metadata := draft.metadata.getD ∅ }

/-- Reads claims. -/
def reader : Json.Reader Claims :=
  record.reader.check ofDraft

/-- The claims of a document. -/
def ofBytes (document : List UInt8) : Except Json.ReadError Claims :=
  reader.read document

end Claims

end Entitlement.Grant
