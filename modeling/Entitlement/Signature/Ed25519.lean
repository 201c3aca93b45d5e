import Entitlement.Signature.Edwards
import Entitlement.Signature.Scheme
import Entitlement.Signature.Sha512

/-! # Ed25519

The signature scheme of RFC 8032 with strict verification: the number of a signature has to be
reduced, neither its point nor the public key may have small order, and the point is compared in its
written form. A signature so accepted is accepted by every implementation of the scheme.
-/

namespace Entitlement.Signature.Ed25519

open Edwards

/-- The number by which a secret key multiplies the base point: the first half of the hash of the
key, with its three lowest bits and its highest bit cleared and the bit below that set. -/
def scalar (digest : List UInt8) : Nat :=
  let n := littleEndian (digest.take 32)
  n % Nat.pow 2 254 / 8 * 8 + Nat.pow 2 254

/-- The public half of a secret key. -/
def publicBytes (secret : SecretKey) : List UInt8 :=
  (Point.base.times (scalar (Sha512.hash secret.bytes))).encode

/-- The hash of several byte strings as a number below the order of the base point. -/
def challenge (parts : List (List UInt8)) : Nat :=
  littleEndian (Sha512.hash parts.flatten) % order

/-- The signature of a message. -/
def sign (secret : SecretKey) (message : List UInt8) : List UInt8 :=
  let digest := Sha512.hash secret.bytes
  let key := scalar digest
  let nonce := challenge [digest.drop 32, message]
  let point := (Point.base.times nonce).encode
  let response := (nonce + challenge [point, publicBytes secret, message] * key) % order
  point ++ toLittleEndian 32 response

/-- Whether a public key accepts a signature of a message. -/
def accepts (key : PublicKey) (message signature : List UInt8) : Bool :=
  let pointBytes := signature.take 32
  let response := littleEndian (signature.drop 32)
  match Point.decode? key.bytes, Point.decode? pointBytes with
  | some keyPoint, some point =>
    response < order && !point.isSmallOrder && !keyPoint.isSmallOrder &&
      (Point.timesTwo response .base (challenge [pointBytes, key.bytes, message])
        keyPoint.negate).encode == pointBytes
  | _, _ => false

theorem encode_length (p : Point) : p.encode.length = 32 :=
  toLittleEndian_length 32 _

/-- Ed25519 as a signature scheme. -/
def scheme : Scheme where
  publicKey secret := ⟨publicBytes secret, encode_length _⟩
  sign := sign
  sign_length _ _ := by
    simp only [sign, List.length_append, encode_length, toLittleEndian_length]
  isPublicKey key := (Point.decode? key.bytes).isSome
  accepts := accepts

end Entitlement.Signature.Ed25519
