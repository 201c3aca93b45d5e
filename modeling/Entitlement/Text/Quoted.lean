import Entitlement.Text.Unshown

/-! # Quoted texts

A quoted text is shown between double quotes so that each of its characters can be told apart:
quotes, backslashes and the common controls have short escapes, and a character that leaves no mark
of its own is shown as its code point.
-/

namespace Entitlement.Text

/-- A number in hexadecimal, with small letters and no leading zeros. -/
def hex (n : Nat) : String :=
  String.ofList (Nat.toDigits 16 n)

/-- How a character is shown between quotes. -/
def quotedChar (c : Char) : String :=
  if c = '"' then "\\\""
  else if c = '\\' then "\\\\"
  else if c = '\x00' then "\\0"
  else if c = '\t' then "\\t"
  else if c = '\n' then "\\n"
  else if c = '\r' then "\\r"
  else if isUnshown c then "\\u\x7b" ++ hex c.toNat ++ "\x7d"
  else String.singleton c

/-- A text between double quotes. -/
def quoted (s : String) : String :=
  "\"" ++ String.join (s.toList.map quotedChar) ++ "\""

end Entitlement.Text
