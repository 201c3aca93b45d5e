import Entitlement.Base64
import Entitlement.Signature.Scheme
import Entitlement.Text.Quoted

/-! # Key material

Secret and public keys are exchanged as padded base64 of 32 bytes. Blanks around the text do not
matter; apart from them each key has one spelling.
-/

namespace Entitlement.Key

open Signature

/-- Why a text holds no key. -/
inductive KeyError where
  | encoding (cause : Base64.DecodeError)
  | length (actual : Nat)
  /-- The bytes denote no point of the curve. -/
  | malformed
  deriving DecidableEq

/-- What the curve says of bytes that denote no point. -/
def notOnCurve : String := "Cannot decompress Edwards point"

def KeyError.message : KeyError → String
  | .encoding cause => "key is not valid base64: " ++ cause.message
  | .length actual => s!"key must be 32 bytes, got {actual}"
  | .malformed => "invalid ed25519 public key: signature error: " ++ notOnCurve

/-- The messages of an error and of what caused it, the error itself first. -/
def KeyError.chain (e : KeyError) : List String :=
  e.message ::
    match e with
    | .encoding cause => [cause.message]
    | .length _ => []
    | .malformed => ["signature error: " ++ notOnCurve, notOnCurve]

/-- The 32 bytes of a key text. -/
def bytesOfText (text : String) : Except KeyError { bytes : List UInt8 // bytes.length = 32 } :=
  match Base64.Alphabet.standard.decode (Text.trim text) with
  | .error cause => .error (.encoding cause)
  | .ok bytes => if h : bytes.length = 32 then .ok ⟨bytes, h⟩ else .error (.length bytes.length)

/-- Reads a secret key. -/
def secretOfText (text : String) : Except KeyError SecretKey :=
  (bytesOfText text).map fun bytes => ⟨bytes.1, bytes.2⟩

/-- Reads a public key, whose bytes have to denote one. -/
def publicOfText (scheme : Scheme) (text : String) : Except KeyError PublicKey := do
  let bytes ← bytesOfText text
  let key : PublicKey := ⟨bytes.1, bytes.2⟩
  if scheme.isPublicKey key then .ok key else .error .malformed

/-- The text of a secret key. -/
def secretText (secret : SecretKey) : String :=
  Base64.Alphabet.standard.encode secret.bytes

/-- The text of a public key. -/
def publicText (key : PublicKey) : String :=
  Base64.Alphabet.standard.encode key.bytes

/-- What may be shown of a secret key: only its public half. -/
def secretSummary (scheme : Scheme) (secret : SecretKey) : String :=
  "Signer \x7b public_key: " ++ Text.quoted (publicText (scheme.publicKey secret)) ++ ", .. \x7d"

/-- The public keys whose signatures are accepted; several keys overlap while one replaces
another. -/
abbrev TrustSet := List PublicKey

/-- Reads the public keys of some texts; the first that holds no key is reported. -/
def TrustSet.ofTexts (scheme : Scheme) (texts : List String) : Except KeyError TrustSet :=
  texts.mapM (publicOfText scheme)

/-- The entries of a list with commas: blanks around an entry and blank entries do not count. -/
def listEntries (list : String) : List String :=
  ((Text.split ',' list).map Text.trim).filter fun entry => entry ≠ ""

/-- Reads public keys from a list with commas. -/
def TrustSet.ofList (scheme : Scheme) (list : String) : Except KeyError TrustSet :=
  TrustSet.ofTexts scheme (listEntries list)

end Entitlement.Key
