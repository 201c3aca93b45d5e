import Entitlement.Text.Blank
import Entitlement.Text.Bytes

/-! # Base64

Base64 groups bytes by three and writes each group as four symbols of six bits. Two alphabets are in
use: the standard one, whose last group is filled with padding, and the one that is safe in
addresses, which is written without padding. Reading is strict: it accepts the written form of a
byte string and no other, so each byte string has one spelling in each alphabet.
-/

namespace Entitlement.Base64

/-- An alphabet is fixed by its last two symbols and by whether the last group is padded. -/
structure Alphabet where
  plus : Char
  slash : Char
  isPadded : Bool

/-- The alphabet of ordinary text. -/
def Alphabet.standard : Alphabet := ⟨'+', '/', true⟩

/-- The alphabet that needs no escaping in addresses and file names. -/
def Alphabet.urlSafe : Alphabet := ⟨'-', '_', false⟩

/-- Why a text is not the written form of any byte string. -/
inductive DecodeError where
  /-- A byte stands where it cannot. -/
  | symbol (byte : UInt8) (offset : Nat)
  /-- The symbols end one short of a group. -/
  | length (count : Nat)
  /-- The last symbol carries bits that belong to no byte. -/
  | lastSymbol (byte : UInt8) (offset : Nat)
  /-- Padding is missing, or stands where none is written. -/
  | padding
  deriving DecidableEq

def DecodeError.message : DecodeError → String
  | .symbol byte offset => s!"Invalid symbol {byte}, offset {offset}."
  | .length count => s!"Invalid input length: {count}"
  | .lastSymbol byte offset => s!"Invalid last symbol {byte}, offset {offset}."
  | .padding => "Invalid padding"

/-- The padding character. -/
def pad : Char := '='

/-- The symbol for a value below 64. -/
def Alphabet.symbol (alphabet : Alphabet) (value : Nat) : Char :=
  if value < 26 then Char.ofNat ('A'.toNat + value)
  else if value < 52 then Char.ofNat ('a'.toNat + (value - 26))
  else if value < 62 then Char.ofNat ('0'.toNat + (value - 52))
  else if value = 62 then alphabet.plus
  else alphabet.slash

/-- The value of a symbol. -/
def Alphabet.value? (alphabet : Alphabet) (byte : UInt8) : Option Nat :=
  let c := Char.ofNat byte.toNat
  if 'A' ≤ c ∧ c ≤ 'Z' then some (c.toNat - 'A'.toNat)
  else if 'a' ≤ c ∧ c ≤ 'z' then some (c.toNat - 'a'.toNat + 26)
  else if '0' ≤ c ∧ c ≤ '9' then some (c.toNat - '0'.toNat + 52)
  else if c = alphabet.plus then some 62
  else if c = alphabet.slash then some 63
  else none

/-- The padding after a last group of `symbols` symbols. -/
def Alphabet.padding (alphabet : Alphabet) (symbols : Nat) : List Char :=
  if alphabet.isPadded then List.replicate (4 - symbols) pad else []

/-- The symbols of a byte string. -/
def Alphabet.encodeChars (alphabet : Alphabet) : List UInt8 → List Char
  | [] => []
  | [a] =>
    [alphabet.symbol (a.toNat / 4), alphabet.symbol (a.toNat % 4 * 16)] ++ alphabet.padding 2
  | [a, b] =>
    [alphabet.symbol (a.toNat / 4), alphabet.symbol (a.toNat % 4 * 16 + b.toNat / 16),
      alphabet.symbol (b.toNat % 16 * 4)] ++ alphabet.padding 3
  | a :: b :: c :: rest =>
    alphabet.symbol (a.toNat / 4) :: alphabet.symbol (a.toNat % 4 * 16 + b.toNat / 16) ::
      alphabet.symbol (b.toNat % 16 * 4 + c.toNat / 64) :: alphabet.symbol (c.toNat % 64) ::
      alphabet.encodeChars rest

/-- The written form of a byte string. -/
def Alphabet.encode (alphabet : Alphabet) (bytes : List UInt8) : String :=
  String.ofList (alphabet.encodeChars bytes)

/-- The value of a symbol that stands at `offset`. -/
def Alphabet.valueAt (alphabet : Alphabet) (offset : Nat) (byte : UInt8) :
    Except DecodeError Nat :=
  match alphabet.value? byte with
  | some value => .ok value
  | none => .error (.symbol byte offset)

/-- The three bytes of a full group. -/
def groupBytes (a b c d : Nat) : List UInt8 :=
  [UInt8.ofNat (a * 4 + b / 16), UInt8.ofNat (b % 16 * 16 + c / 4), UInt8.ofNat (c % 4 * 64 + d)]

/-- What is known of the last group while it is read: its symbols in reverse order, with their
values, and how many padding characters followed them. -/
structure Tail where
  symbols : List (UInt8 × Nat)
  pads : Nat

/-- Reads the bytes of the last group, which starts at `start`. Padding may follow two or three
symbols only, and no symbol may follow padding. -/
def Alphabet.readTail (alphabet : Alphabet) (start : Nat) (tail : Tail) :
    List UInt8 → Except DecodeError Tail
  | [] => .ok tail
  | byte :: rest =>
    let offset := start + tail.symbols.length + tail.pads
    if byte = pad.toUInt8 then
      if tail.symbols.length + tail.pads < 2 then .error (.symbol byte offset)
      else alphabet.readTail start { tail with pads := tail.pads + 1 } rest
    else if tail.pads ≠ 0 then .error (.symbol pad.toUInt8 (start + tail.symbols.length))
    else
      match alphabet.valueAt offset byte with
      | .error e => .error e
      | .ok value =>
        alphabet.readTail start { tail with symbols := (byte, value) :: tail.symbols } rest

/-- The bytes of a last group whose symbols and padding have been read. -/
def Alphabet.finishTail (alphabet : Alphabet) (start : Nat) (tail : Tail) :
    Except DecodeError (List UInt8) :=
  let count := tail.symbols.length
  if count < 2 then .error (.length (start + count))
  else if alphabet.isPadded ∧ (count + tail.pads) % 4 ≠ 0 then .error .padding
  else if ¬ alphabet.isPadded ∧ tail.pads ≠ 0 then .error .padding
  else
    match tail.symbols with
    | [(_, d), (_, c), (_, b), (_, a)] => .ok (groupBytes a b c d)
    | [(last, c), (_, b), (_, a)] =>
      if c % 4 ≠ 0 then .error (.lastSymbol last (start + 2))
      else .ok ((groupBytes a b c 0).take 2)
    | [(last, b), (_, a)] =>
      if b % 16 ≠ 0 then .error (.lastSymbol last (start + 1))
      else .ok ((groupBytes a b 0 0).take 1)
    | _ => .error (.length (start + count))

/-- Reads the groups from `start` on: four symbols at a time while more follow, then the last group.
The bytes read so far are kept in reverse order. -/
def Alphabet.readGroups (alphabet : Alphabet) (start : Nat) (read : List UInt8) :
    List UInt8 → Except DecodeError (List UInt8)
  | a :: b :: c :: d :: next :: rest => do
    let va ← alphabet.valueAt start a
    let vb ← alphabet.valueAt (start + 1) b
    let vc ← alphabet.valueAt (start + 2) c
    let vd ← alphabet.valueAt (start + 3) d
    alphabet.readGroups (start + 4) ((groupBytes va vb vc vd).reverse ++ read) (next :: rest)
  | last => do
    let tail ← alphabet.readTail start ⟨[], 0⟩ last
    let bytes ← alphabet.finishTail start tail
    return read.reverse ++ bytes

/-- A text one byte longer than whole groups whose last byte is no symbol: that byte is reported
first, wherever else the text is wrong, because it is most often a stray line end. -/
def Alphabet.strayEnd? (alphabet : Alphabet) (input : List UInt8) : Option DecodeError :=
  match input.getLast? with
  | none => none
  | some last =>
    if input.length % 4 = 1 ∧ last ≠ pad.toUInt8 ∧ alphabet.value? last = none then
      some (.symbol last (input.length - 1))
    else none

/-- Reads a byte string. -/
def Alphabet.decodeBytes (alphabet : Alphabet) (input : List UInt8) :
    Except DecodeError (List UInt8) :=
  match input with
  | [] => .ok []
  | input =>
    match alphabet.strayEnd? input with
    | some e => .error e
    | none => alphabet.readGroups 0 [] input

/-- Reads a byte string from a text. -/
def Alphabet.decode (alphabet : Alphabet) (text : String) : Except DecodeError (List UInt8) :=
  alphabet.decodeBytes (Text.bytes text)

end Entitlement.Base64
