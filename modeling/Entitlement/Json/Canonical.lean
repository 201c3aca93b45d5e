import Entitlement.Json.Text

/-! # The canonical order of members

The canonical form of a document orders the members of each object by their names, compared as
sequences of UTF-16 code units before any escaping. This is neither the order of code points nor the
order of written names: a character outside the basic plane comes before `U+E000`, and a quote is
compared as itself and not as a backslash.
-/

namespace Entitlement.Json

/-- The UTF-16 code units of a character. -/
def charUnits (c : Char) : List Nat :=
  if c.toNat < 0x10000 then [c.toNat]
  else [0xD800 + (c.toNat - 0x10000) / 0x400, 0xDC00 + (c.toNat - 0x10000) % 0x400]

/-- The UTF-16 code units of a text. -/
def units (s : String) : List Nat :=
  s.toList.flatMap charUnits

/-- Whether one sequence of code units stands before another one, or equals it, where the first unit
that differs decides and the end stands before every unit. -/
def unitsPrecede : List Nat → List Nat → Bool
  | [], _ => true
  | _ :: _, [] => false
  | a :: as, b :: bs => a < b || a = b && unitsPrecede as bs

/-- Whether one member stands before another one, or at the same place, in canonical order. -/
def precedes (a b : Member) : Bool :=
  unitsPrecede (units a.1) (units b.1)

/-- The members of an object in canonical order. -/
def canonicalOrder (members : List Member) : List Member :=
  members.mergeSort precedes

end Entitlement.Json
