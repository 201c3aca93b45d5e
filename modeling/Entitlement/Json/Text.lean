/-! # Writing JSON

A document is written without insignificant blanks. Strings use the shortest escapes that the
grammar allows and leave every character that needs none as it is. Members are written in the order
in which they are given; choosing that order is left to the caller.
-/

namespace Entitlement.Json

/-- A small hexadecimal digit. -/
def hexDigit (value : Nat) : Char :=
  if value < 10 then Char.ofNat ('0'.toNat + value) else Char.ofNat ('a'.toNat + (value - 10))

/-- How a character is written inside a string. -/
def escape (c : Char) : List Char :=
  if c = '"' then ['\\', '"']
  else if c = '\\' then ['\\', '\\']
  else if c = '\x08' then ['\\', 'b']
  else if c = '\t' then ['\\', 't']
  else if c = '\n' then ['\\', 'n']
  else if c = '\x0c' then ['\\', 'f']
  else if c = '\r' then ['\\', 'r']
  else if c.toNat < 0x20 then
    ['\\', 'u', '0', '0', hexDigit (c.toNat / 16), hexDigit (c.toNat % 16)]
  else [c]

/-- A string. -/
def string (s : String) : String :=
  "\"" ++ String.ofList (s.toList.flatMap escape) ++ "\""

/-- A truth value. -/
def bool (b : Bool) : String :=
  if b then "true" else "false"

/-- A natural number in decimal digits. -/
def nat (n : Nat) : String :=
  toString n

/-- A value, or null where there is none. -/
def optional {α : Type} (write : α → String) : Option α → String
  | none => "null"
  | some value => write value

/-- A member of an object: its name, not yet written, and its written value. -/
abbrev Member := String × String

/-- A written member. -/
def member (m : Member) : String :=
  string m.1 ++ ":" ++ m.2

/-- An array of written values. -/
def array (values : List String) : String :=
  "[" ++ String.intercalate "," values ++ "]"

/-- An object with the given members in the given order. -/
def object (members : List Member) : String :=
  "\x7b" ++ String.intercalate "," (members.map member) ++ "\x7d"

end Entitlement.Json
