import Entitlement.Text.Quoted

/-! # Fresh ids

An id that is made up for a license or a customer is a random number in the usual form of 32
hexadecimal digits in five groups, two of which also say that the number is random.
-/

namespace Entitlement.Tool

/-- A byte as two hexadecimal digits. -/
def byteText (byte : UInt8) : String :=
  (if byte < 16 then "0" else "") ++ Text.hex byte.toNat

/-- Some bytes in hexadecimal digits. -/
def bytesText (bytes : List UInt8) : String :=
  String.join (bytes.map byteText)

/-- The id of sixteen random bytes. -/
def freshId (random : List UInt8) : String :=
  let marked := (random.modify 6 fun b => b &&& 0x0f ||| 0x40).modify 8 fun b =>
    b &&& 0x3f ||| 0x80
  let group (start count : Nat) : String := bytesText ((marked.drop start).take count)
  String.intercalate "-" [group 0 4, group 4 2, group 6 2, group 8 2, group 10 6]

end Entitlement.Tool
