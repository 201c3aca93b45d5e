import Entitlement.Grant.License
import Entitlement.Key.Envelope
import Entitlement.Key.Material

/-! # Verifying keys

A key is accepted at an instant if a trusted key accepts the signature over its payload and the
instant lies in the window that the payload names. Nothing of a payload is looked at before its
signature has been accepted, so a rejected signature tells nothing about the payload.
-/

namespace Entitlement.Key

open Calendar Grant Signature

/-- Why a key has not the form of a license. -/
inductive FormatError where
  | envelope (cause : EnvelopeError)
  | payload (cause : Json.ReadError)
  | invertedWindow
  deriving DecidableEq

/-- The text of an error; in a malformed document the place of the fault is left out. -/
def FormatError.message : FormatError → String
  | .envelope cause => cause.message
  | .payload cause => "malformed license payload: " ++ cause.message
  | .invertedWindow => "license expires before it is issued"

/-- Why a key is rejected. -/
inductive VerificationError where
  | invalidFormat (cause : FormatError)
  | invalidSignature
  | notYetValid (validFrom : Timestamp)
  | expired (expiredAt : Timestamp)
  deriving DecidableEq

/-- The classes of reasons to reject a key. Events and logs tell the class and nothing more. -/
inductive Rejection where
  | invalidFormat | invalidSignature | notYetValid | expired
  deriving DecidableEq

def Rejection.name : Rejection → String
  | .invalidFormat => "invalid_format"
  | .invalidSignature => "invalid_signature"
  | .notYetValid => "not_yet_valid"
  | .expired => "expired"

/-- The class of an error. -/
def VerificationError.kind : VerificationError → Rejection
  | .invalidFormat _ => .invalidFormat
  | .invalidSignature => .invalidSignature
  | .notYetValid _ => .notYetValid
  | .expired _ => .expired

def VerificationError.message : VerificationError → String
  | .invalidFormat cause => "invalid license format: " ++ cause.message
  | .invalidSignature => "license signature is invalid"
  | .notYetValid validFrom => "license is not valid before " ++ validFrom.display
  | .expired expiredAt => "license expired at " ++ expiredAt.display

/-- Takes a license key apart; a signature that is not base64 is an invalid signature. -/
def openEnvelope (key : String) : Except VerificationError Envelope :=
  (Envelope.decode key).mapError fun
    | .form cause => .invalidFormat (.envelope cause)
    | .signatureNotBase64 => .invalidSignature

/-- The number of bytes of a signature. -/
def signatureLength : Nat := 64

/-- Whether some trusted key accepts the signature of an envelope. -/
def isAuthentic (scheme : Scheme) (trusted : TrustSet) (envelope : Envelope) : Bool :=
  envelope.signature.length == signatureLength &&
    trusted.any fun key => scheme.accepts key envelope.payload envelope.signature

/-- The license of an authentic payload at an instant. -/
def licenseOf (payload : List UInt8) (now : Timestamp) : Except VerificationError License :=
  match Claims.ofBytes payload with
  | .error cause => .error (.invalidFormat (.payload cause))
  | .ok claims =>
    if ¬ claims.hasValidWindow then .error (.invalidFormat .invertedWindow)
    else if now < claims.issuedAt then .error (.notYetValid claims.issuedAt)
    else if claims.expiresAt ≤ now then .error (.expired claims.expiresAt)
    else .ok ⟨claims, .verified⟩

/-- The license of a key at an instant. -/
def verify (scheme : Scheme) (trusted : TrustSet) (key : String) (now : Timestamp) :
    Except VerificationError License :=
  match openEnvelope key with
  | .error e => .error e
  | .ok envelope =>
    if isAuthentic scheme trusted envelope then licenseOf envelope.payload now
    else .error .invalidSignature

end Entitlement.Key
