import Entitlement.Proofs.Base64.Bits
import Entitlement.Proofs.Base64.Canonical
import Entitlement.Proofs.Key.Verify

/-! # Each key has one text

A key text, without the blanks around it, is padded base64 of the 32 bytes of the key. Whatever else
is given is refused, with what is wrong with it: no byte string has that text, the bytes are not 32,
or they denote no key. So reading and writing keys are inverse to each other.
-/

namespace Entitlement.Key

open Base64 Signature

/-! ## The bytes of a text -/

/-- Without the blanks around it, a text is padded base64 of some bytes. -/
def Spells (text : String) (bytes : List UInt8) : Prop :=
  IsPaddedForm (Text.trim text) bytes

theorem spells_iff {text : String} {bytes : List UInt8} :
    Spells text bytes ↔ Text.trim text = Alphabet.standard.encode bytes :=
  isPaddedForm_iff

instance (text : String) (bytes : List UInt8) : Decidable (Spells text bytes) :=
  decidable_of_iff _ spells_iff.symm

theorem decode_trim_eq_ok_iff {text : String} {bytes : List UInt8} :
    Alphabet.standard.decode (Text.trim text) = .ok bytes ↔ Spells text bytes := by
  rw [spells_iff, Alphabet.standard_isStrict.decode_eq_ok_iff]

/-- There are no blanks around a written form. -/
theorem trim_encode (bytes : List UInt8) :
    Text.trim (Alphabet.standard.encode bytes) = Alphabet.standard.encode bytes :=
  Text.trim_eq_self fun _ hc => Alphabet.standard_isLawful.isBlank_of_mem_encode hc

theorem bytesOfText_eq_ok_iff {text : String}
    {bytes : { bytes : List UInt8 // bytes.length = 32 }} :
    bytesOfText text = .ok bytes ↔ Spells text bytes.1 := by
  rw [← decode_trim_eq_ok_iff, bytesOfText]
  cases Alphabet.standard.decode (Text.trim text) with
  | error cause => simp
  | ok read =>
      simp only [Except.ok.injEq]
      split
      next => rw [Except.ok.injEq, Subtype.ext_iff]
      next hlength =>
        refine iff_of_false nofun ?_
        rintro rfl
        exact hlength bytes.2

theorem bytesOfText_eq_length_iff {text : String} {n : Nat} :
    bytesOfText text = .error (.length n) ↔
      ∃ bytes, Spells text bytes ∧ bytes.length = n ∧ n ≠ 32 := by
  simp only [← decode_trim_eq_ok_iff, bytesOfText]
  cases Alphabet.standard.decode (Text.trim text) with
  | error cause => simp
  | ok read =>
      simp only [Except.ok.injEq, exists_eq_left']
      split
      next hlength =>
        refine iff_of_false nofun ?_
        rintro ⟨rfl, hother⟩
        exact hother hlength
      next hlength =>
        rw [Except.error.injEq, KeyError.length.injEq]
        exact ⟨fun hn => ⟨hn, hn ▸ hlength⟩, And.left⟩

theorem exists_bytesOfText_eq_encoding_iff {text : String} :
    (∃ cause, bytesOfText text = .error (.encoding cause)) ↔ ∀ bytes, ¬ Spells text bytes := by
  simp only [spells_iff]
  rw [← Alphabet.standard_isStrict.exists_decode_eq_error_iff, bytesOfText]
  cases Alphabet.standard.decode (Text.trim text) with
  | error cause => simp
  | ok read =>
      simp only
      split <;> simp

theorem bytesOfText_ne_malformed (text : String) : bytesOfText text ≠ .error .malformed := by
  unfold bytesOfText
  split
  next => nofun
  next => split <;> nofun

/-! ## Reading and writing keys -/

/-- Keys have 32 bytes, some byte strings denote no key, and every key is read from the text that is
written for it and from no other. What is wrong with a text is told apart. -/
structure IsStrictCodec {κ : Type} (read : String → Except KeyError κ) (write : κ → String)
    (keyBytes : κ → List UInt8) (denotes : List UInt8 → Bool) : Prop where
  write_form : ∀ key, IsPaddedForm (write key) (keyBytes key)
  ok_iff : ∀ text key, read text = .ok key ↔
    Text.trim text = write key ∧ denotes (keyBytes key) = true
  exists_ok_iff : ∀ text, (∃ key, read text = .ok key) ↔
    ∃ bytes, Spells text bytes ∧ bytes.length = 32 ∧ denotes bytes = true
  encoding_iff : ∀ text, (∃ cause, read text = .error (.encoding cause)) ↔
    ∀ bytes, ¬ Spells text bytes
  length_iff : ∀ text n, read text = .error (.length n) ↔
    ∃ bytes, Spells text bytes ∧ bytes.length = n ∧ n ≠ 32
  malformed_iff : ∀ text, read text = .error .malformed ↔
    ∃ bytes, Spells text bytes ∧ bytes.length = 32 ∧ denotes bytes = false
  /-- Only blanks tell two texts of the same key bytes apart. -/
  unique : ∀ text text' key key', read text = .ok key → read text' = .ok key' →
    keyBytes key = keyBytes key' → Text.trim text = Text.trim text'

section Codec

variable {κ : Type} {make : { bytes : List UInt8 // bytes.length = 32 } → κ}
  {keyBytes : κ → List UInt8} {denotes : List UInt8 → Bool} {text : String}

/-- The key of some bytes, if they denote one. -/
def keyOfBytes (make : { bytes : List UInt8 // bytes.length = 32 } → κ)
    (denotes : List UInt8 → Bool) (bytes : { bytes : List UInt8 // bytes.length = 32 }) :
    Except KeyError κ :=
  if denotes bytes.1 then .ok (make bytes) else .error .malformed

theorem keyOfBytes_eq_ok_iff {bytes : { bytes : List UInt8 // bytes.length = 32 }} {key : κ} :
    keyOfBytes make denotes bytes = .ok key ↔ denotes bytes.1 = true ∧ make bytes = key := by
  unfold keyOfBytes
  split
  next hdenotes => rw [Except.ok.injEq, and_iff_right hdenotes]
  next hdenotes => exact iff_of_false nofun fun hkey => hdenotes hkey.1

theorem keyOfBytes_eq_error_iff {bytes : { bytes : List UInt8 // bytes.length = 32 }}
    {e : KeyError} :
    keyOfBytes make denotes bytes = .error e ↔ denotes bytes.1 = false ∧ e = .malformed := by
  unfold keyOfBytes
  split
  next hdenotes => simp [hdenotes]
  next hdenotes =>
    rw [Except.error.injEq, and_iff_right (Bool.eq_false_iff.mpr hdenotes), eq_comm]

theorem bind_keyOfBytes_eq_ok_iff (hlength : ∀ key, (keyBytes key).length = 32)
    (hmake : ∀ bytes key, make bytes = key ↔ bytes.1 = keyBytes key) {key : κ} :
    bytesOfText text >>= keyOfBytes make denotes = .ok key ↔
      Spells text (keyBytes key) ∧ denotes (keyBytes key) = true := by
  simp only [bind_eq_ok_iff, bytesOfText_eq_ok_iff, keyOfBytes_eq_ok_iff, hmake]
  constructor
  · rintro ⟨bytes, hspells, hdenotes, hbytes⟩
    rw [← hbytes]
    exact ⟨hspells, hdenotes⟩
  · rintro ⟨hspells, hdenotes⟩
    exact ⟨⟨keyBytes key, hlength key⟩, hspells, hdenotes, rfl⟩

theorem bind_keyOfBytes_eq_error_iff {e : KeyError} :
    bytesOfText text >>= keyOfBytes make denotes = .error e ↔
      bytesOfText text = .error e ∨
        (∃ bytes, Spells text bytes ∧ bytes.length = 32 ∧ denotes bytes = false) ∧
          e = .malformed := by
  rw [bind_eq_error_iff]
  refine or_congr_right ?_
  simp only [bytesOfText_eq_ok_iff, keyOfBytes_eq_error_iff, Subtype.exists]
  constructor
  · rintro ⟨bytes, hlength, hspells, hdenotes, he⟩
    exact ⟨⟨bytes, hspells, hlength, hdenotes⟩, he⟩
  · rintro ⟨⟨bytes, hspells, hlength, hdenotes⟩, he⟩
    exact ⟨bytes, hlength, hspells, hdenotes, he⟩

variable (make) in
/-- Whoever makes keys of the bytes of a text, and writes their bytes, has a strict codec. -/
theorem isStrictCodec_of_make {read : String → Except KeyError κ} {write : κ → String}
    (hlength : ∀ key, (keyBytes key).length = 32)
    (hmake : ∀ bytes key, make bytes = key ↔ bytes.1 = keyBytes key)
    (hread : ∀ text, read text = bytesOfText text >>= keyOfBytes make denotes)
    (hwrite : ∀ key, write key = Alphabet.standard.encode (keyBytes key)) :
    IsStrictCodec read write keyBytes denotes := by
  have hok : ∀ text key, read text = .ok key ↔
      Spells text (keyBytes key) ∧ denotes (keyBytes key) = true := fun text key => by
    rw [hread, bind_keyOfBytes_eq_ok_iff hlength hmake]
  refine ⟨fun key => isPaddedForm_iff.mpr (hwrite key), fun text key => ?_, fun text => ?_,
    fun text => ?_, fun text n => ?_, fun text => ?_,
    fun text text' key key' hkey hkey' hsame => ?_⟩
  · rw [hok, hwrite, spells_iff]
  · simp only [hok]
    constructor
    · rintro ⟨key, hspells, hdenotes⟩
      exact ⟨keyBytes key, hspells, hlength key, hdenotes⟩
    · rintro ⟨bytes, hspells, hbytes, hdenotes⟩
      have hkey : bytes = keyBytes (make ⟨bytes, hbytes⟩) := (hmake ⟨bytes, hbytes⟩ _).mp rfl
      rw [hkey] at hspells hdenotes
      exact ⟨_, hspells, hdenotes⟩
  · simp only [hread, bind_keyOfBytes_eq_error_iff, reduceCtorEq, and_false, or_false]
    exact exists_bytesOfText_eq_encoding_iff
  · simp only [hread, bind_keyOfBytes_eq_error_iff, reduceCtorEq, and_false, or_false]
    exact bytesOfText_eq_length_iff
  · rw [hread, bind_keyOfBytes_eq_error_iff, or_iff_right (bytesOfText_ne_malformed text),
      and_iff_left rfl]
  · obtain ⟨hspells, -⟩ := (hok text key).mp hkey
    obtain ⟨hspells', -⟩ := (hok text' key').mp hkey'
    rw [hsame] at hspells
    exact hspells.unique hspells'

end Codec

theorem isStrictCodec_secret :
    IsStrictCodec secretOfText secretText SecretKey.bytes fun _ => true := by
  refine isStrictCodec_of_make (fun bytes => ⟨bytes.1, bytes.2⟩) SecretKey.length_eq
    (fun bytes key => ?_) (fun text => ?_) fun _ => rfl
  · cases key
    simp
  · unfold secretOfText
    cases bytesOfText text <;> rfl

theorem isStrictCodec_public (scheme : Scheme) {denotes : List UInt8 → Bool}
    (hdenotes : ∀ key, scheme.isPublicKey key = denotes key.bytes) :
    IsStrictCodec (publicOfText scheme) publicText PublicKey.bytes denotes := by
  refine isStrictCodec_of_make (fun bytes => ⟨bytes.1, bytes.2⟩) PublicKey.length_eq
    (fun bytes key => ?_) (fun text => ?_) fun _ => rfl
  · cases key
    simp
  · simp only [publicOfText, hdenotes]
    rfl

theorem secretOfText_secretText (secret : SecretKey) :
    secretOfText (secretText secret) = .ok secret := by
  rw [isStrictCodec_secret.ok_iff, secretText]
  exact ⟨trim_encode secret.bytes, rfl⟩

/-! ## Key texts -/

/-- Each key has one text. A secret key is read exactly from padded base64 of 32 bytes, and a public
key exactly from that of 32 bytes that denote a point of the curve, with blanks around it or
without; what is written for the key is the text without the blanks. Other texts are refused because
they are padded base64 of no bytes, for the number of their bytes or, public keys only, because 32
bytes denote no point. A secret key that is written is read back, with the same public half. -/
theorem keys_have_one_text :
    IsStrictCodec secretOfText secretText SecretKey.bytes (fun _ => true) ∧
      IsStrictCodec (publicOfText Ed25519.scheme) publicText PublicKey.bytes
        (fun bytes => (Edwards.Point.decode? bytes).isSome) ∧
      ∀ secret, secretOfText (secretText secret) = .ok secret ∧
        (secretOfText (secretText secret)).map Ed25519.scheme.publicKey =
          .ok (Ed25519.scheme.publicKey secret) := by
  refine ⟨isStrictCodec_secret, isStrictCodec_public Ed25519.scheme fun _ => rfl,
    fun secret => ⟨secretOfText_secretText secret, ?_⟩⟩
  rw [secretOfText_secretText, Except.map]

/-- A secret key of ones is read with blanks around its text and has no other text. A public key of
the number two denotes no point. -/
theorem keys_have_one_text_sample :
    secretOfText " AQEBAQEBAQEBAQEBAQEBAQEBAQEBAQEBAQEBAQEBAQE=\n" = .ok ⟨.replicate 32 1, rfl⟩ ∧
      publicOfText Ed25519.scheme "AgAAAAAAAAAAAAAAAAAAAAAAAAAAAAAAAAAAAAAAAAA=" =
        .error .malformed ∧
      ∀ text, secretOfText text = .ok ⟨.replicate 32 1, rfl⟩ →
        Text.trim text = "AQEBAQEBAQEBAQEBAQEBAQEBAQEBAQEBAQEBAQEBAQE=" := by
  obtain ⟨hsecret, hpublic, -⟩ := keys_have_one_text
  have hones : secretOfText " AQEBAQEBAQEBAQEBAQEBAQEBAQEBAQEBAQEBAQEBAQE=\n" =
      .ok ⟨.replicate 32 1, rfl⟩ := by
    rw [hsecret.ok_iff]
    exact ⟨by decide +kernel, rfl⟩
  refine ⟨hones, ?_, fun text htext => ?_⟩
  · rw [hpublic.malformed_iff]
    exact ⟨2 :: .replicate 31 0, by decide +kernel⟩
  · rw [hsecret.unique _ _ _ _ htext hones rfl]
    decide +kernel

/-- The last symbol of a text may not carry a bit that belongs to no byte. -/
example : secretOfText "AQEBAQEBAQEBAQEBAQEBAQEBAQEBAQEBAQEBAQEBAQF=" =
    .error (.encoding (.lastSymbol 70 42)) := by
  decide +kernel

end Entitlement.Key
