import Entitlement.Text.Blank

/-! # Addresses

A service listens at a socket address: four numbers with dots, or up to eight hexadecimal groups
with colons between brackets, and a port after a colon. One run of zero groups may be left out, and
the last two groups may be written as four numbers. Names of hosts are not addresses.
-/

namespace Entitlement.Service

/-- Whether a text is a decimal number up to some limit. -/
def isNumber (limit : Nat) (digits : List Char) : Bool :=
  match Text.decimal? digits with
  | some n => n ≤ limit
  | none => false

/-- Whether a text is a number of one byte without zeros in front. -/
def isByte (digits : List Char) : Bool :=
  digits.length ≤ 3 && isNumber 255 digits && (digits.length == 1 || digits.head? != some '0')

/-- Whether a text is four numbers with dots. -/
def isDotted (address : List Char) : Bool :=
  let parts := Text.pieces '.' address
  parts.length == 4 && parts.all isByte

def isHexDigit (c : Char) : Bool :=
  c.isDigit || ('a' ≤ c && c ≤ 'f') || ('A' ≤ c && c ≤ 'F')

/-- The number of groups in a text of groups with colons between them. -/
def groups? (text : List Char) : Option Nat :=
  if text = [] then some 0
  else
    let parts := Text.pieces ':' text
    let isGroup (part : List Char) : Bool :=
      part ≠ [] && part.length ≤ 4 && part.all isHexDigit
    if parts.all isGroup then some parts.length
    else if parts.dropLast.all isGroup && isDotted (parts.getLastD []) then
      some (parts.length + 1)
    else none

/-- What stands before and after the first two colons in a row. -/
def cutAtGap? : List Char → Option (List Char × List Char)
  | ':' :: ':' :: rest => some ([], rest)
  | c :: rest => (cutAtGap? rest).map fun (before, after) => (c :: before, after)
  | [] => none

/-- Whether a text is an address of groups. -/
def isGrouped (address : List Char) : Bool :=
  match cutAtGap? address with
  | none => groups? address == some 8
  | some (before, after) =>
    match groups? before, groups? after with
    | some m, some n => m + n ≤ 7 && !before.contains '.'
    | _, _ => false

/-- Whether a text is an address of groups, with a number for its zone or without one. -/
def isZoned (address : List Char) : Bool :=
  match Text.cut? '%' address with
  | none => isGrouped address
  | some (address, zone) => isGrouped address && isNumber (UInt32.size - 1) zone

/-- Whether a text is a socket address. -/
def isSocketAddress (text : String) : Bool :=
  match text.toList with
  | '[' :: rest =>
    match Text.cut? ']' rest with
    | some (address, ':' :: port) => isZoned address && isNumber (UInt16.size - 1) port
    | _ => false
  | cs =>
    match Text.cut? ':' cs with
    | some (address, port) => isDotted address && isNumber (UInt16.size - 1) port
    | none => false

end Entitlement.Service
