/-! # Signature schemes

A scheme signs byte strings with secret keys of 32 bytes and judges signatures of 64 bytes under
public keys of 32 bytes. The rest of the library takes the scheme as it comes: what it knows of a
signature is only whether the scheme accepts it.
-/

namespace Entitlement.Signature

/-- A secret key. -/
structure SecretKey where
  bytes : List UInt8
  length_eq : bytes.length = 32
  deriving DecidableEq

/-- A public key. -/
structure PublicKey where
  bytes : List UInt8
  length_eq : bytes.length = 32
  deriving DecidableEq

/-- A signature scheme. -/
structure Scheme where
  /-- The public half of a secret key. -/
  publicKey : SecretKey → PublicKey
  /-- The signature of a message. -/
  sign : SecretKey → List UInt8 → List UInt8
  sign_length : ∀ key message, (sign key message).length = 64
  /-- Whether 32 bytes denote a public key. -/
  isPublicKey : PublicKey → Bool
  /-- Whether a public key accepts a signature of a message. -/
  accepts : PublicKey → List UInt8 → List UInt8 → Bool

end Entitlement.Signature
