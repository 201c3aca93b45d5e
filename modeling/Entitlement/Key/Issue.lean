import Entitlement.Grant.License
import Entitlement.Key.Envelope
import Entitlement.Key.Material

/-! # Issuing keys

A key is issued by signing the canonical document of its claims. Claims whose window is inverted, or
with a limit that the document cannot carry exactly, are not signed.
-/

namespace Entitlement.Key

open Calendar Grant Plan Signature

/-- Why claims are not signed. -/
inductive IssueError where
  | invalidWindow (issuedAt expiresAt : Timestamp)
  | limitOutOfRange (name : String) (value : UInt64)
  /-- An end of the window has no written form. -/
  | unwritable
  deriving DecidableEq

def IssueError.message : IssueError → String
  | .invalidWindow issuedAt expiresAt =>
    s!"license expires ({expiresAt.display}) before it is issued ({issuedAt.display})"
  | .limitOutOfRange name value =>
    s!"limit {name} = {value} exceeds the encodable maximum {Limits.maxEncodable}"
  | .unwritable => "encode license payload: " ++ Rfc3339.unwritable

/-- The bytes that are signed for some claims. -/
def canonicalPayload (claims : Claims) : Except IssueError (List UInt8) :=
  if ¬ claims.hasValidWindow then .error (.invalidWindow claims.issuedAt claims.expiresAt)
  else
    match claims.limits.firstUnencodable? with
    | some (name, value) => .error (.limitOutOfRange name value)
    | none =>
      match claims.toCanonical? with
      | none => .error .unwritable
      | some document => .ok (Text.bytes document)

/-- Signs claims. -/
def sign (scheme : Scheme) (secret : SecretKey) (claims : Claims) : Except IssueError Envelope := do
  let payload ← canonicalPayload claims
  return { version := formatVersion, payload, signature := scheme.sign secret payload }

/-- The license key for some claims. -/
def issue (scheme : Scheme) (secret : SecretKey) (claims : Claims) : Except IssueError String :=
  (sign scheme secret claims).map Envelope.encode

end Entitlement.Key
