import Entitlement.Base64
import Entitlement.Json.Record
import Entitlement.Json.Text

/-! # Envelopes

A license key is one line of text: the URL-safe base64 of a JSON object that holds the format
version, the signed payload and the signature, the latter two in base64 of their own. Taking an
envelope apart says nothing about its payload.
-/

namespace Entitlement.Key

/-- A payload with a signature over it. -/
structure Envelope where
  version : UInt32
  payload : List UInt8
  signature : List UInt8
  deriving DecidableEq

/-- The only version of the format. -/
def formatVersion : UInt32 := 1

/-- The JSON object of an envelope. -/
def Envelope.toJson (envelope : Envelope) : String :=
  Json.object
    [("payload", Json.string (Base64.Alphabet.standard.encode envelope.payload)),
      ("sig", Json.string (Base64.Alphabet.standard.encode envelope.signature)),
      ("v", Json.nat envelope.version.toNat)]

/-- The license key of an envelope. -/
def Envelope.encode (envelope : Envelope) : String :=
  Base64.Alphabet.urlSafe.encode (Text.bytes envelope.toJson)

/-- The members of an envelope as they are read. -/
structure EnvelopeDraft where
  version : Option UInt32 := none
  payload : Option String := none
  signature : Option String := none

/-- The members of an envelope document. -/
def Envelope.record : Json.Record EnvelopeDraft where
  title := "struct Envelope"
  start := {}
  fields :=
    [⟨"v", true, (·.version.isSome), fun draft =>
        Json.Reader.word32.map fun value => { draft with version := some value }⟩,
      ⟨"payload", true, (·.payload.isSome), fun draft =>
        Json.Reader.string.map fun value => { draft with payload := some value }⟩,
      ⟨"sig", true, (·.signature.isSome), fun draft =>
        Json.Reader.string.map fun value => { draft with signature := some value }⟩]

/-- The version, payload and signature texts of an envelope document. -/
def Envelope.parts (draft : EnvelopeDraft) :
    Except Json.ReadError (UInt32 × String × String) :=
  match draft.version, draft.payload, draft.signature with
  | some version, some payload, some signature => .ok (version, payload, signature)
  | none, _, _ => .error (.missingMember "v")
  | _, none, _ => .error (.missingMember "payload")
  | _, _, none => .error (.missingMember "sig")

/-- Reads the members of an envelope document. -/
def Envelope.reader : Json.Reader (UInt32 × String × String) :=
  Envelope.record.reader.check Envelope.parts

/-- Why a text has not the form of an envelope. -/
inductive EnvelopeError where
  | notBase64 (cause : Base64.DecodeError)
  | malformed (cause : Json.ReadError)
  | unsupportedVersion (version : UInt32)
  | payloadNotBase64 (cause : Base64.DecodeError)
  deriving DecidableEq

/-- The text of an error; in a malformed document the place of the fault is left out. -/
def EnvelopeError.message : EnvelopeError → String
  | .notBase64 cause => "license key is not base64url: " ++ cause.message
  | .malformed cause => "malformed license envelope: " ++ cause.message
  | .unsupportedVersion version => s!"unsupported license format version {version}"
  | .payloadNotBase64 cause => "license payload is not base64: " ++ cause.message

/-- Why a text is no license key. A signature that cannot be read is told apart from a fault of the
form. -/
inductive DecodeError where
  | form (cause : EnvelopeError)
  | signatureNotBase64
  deriving DecidableEq

/-- Takes a license key apart. Blanks around it do not matter. -/
def Envelope.decode (key : String) : Except DecodeError Envelope := do
  let document ←
    (Base64.Alphabet.urlSafe.decode (Text.trim key)).mapError fun e => .form (.notBase64 e)
  let (version, payload, signature) ←
    (Envelope.reader.read document).mapError fun e => .form (.malformed e)
  if version ≠ formatVersion then
    throw (.form (.unsupportedVersion version))
  let payload ←
    (Base64.Alphabet.standard.decode payload).mapError fun e => .form (.payloadNotBase64 e)
  let signature ←
    (Base64.Alphabet.standard.decode signature).mapError fun _ => .signatureNotBase64
  return { version, payload, signature }

end Entitlement.Key
