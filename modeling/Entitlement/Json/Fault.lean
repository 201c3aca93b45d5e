import Entitlement.Decimal.Shortest
import Entitlement.Text.Bytes
import Entitlement.Text.Quoted

/-! # Why a document cannot be read

A document is read from front to back by a reader that knows which value it expects, so an error
says either that the text is not JSON at that point or that the value found there is not the value
expected. The first error met while reading forward is the one reported.
-/

namespace Entitlement.Json

/-- A place where a text is not JSON. -/
inductive Fault where
  | endInValue | endInString | endInArray | endInObject
  | expectedValue | expectedWord | expectedColon | expectedArrayEnd | expectedObjectEnd
  | nameNotString | trailingComma | trailingCharacters
  | malformedNumber | numberTooLarge
  | malformedEscape | controlCharacter | malformedUtf8 | loneSurrogate | unpairedSurrogate
  deriving DecidableEq

def Fault.message : Fault → String
  | .endInValue => "EOF while parsing a value"
  | .endInString => "EOF while parsing a string"
  | .endInArray => "EOF while parsing a list"
  | .endInObject => "EOF while parsing an object"
  | .expectedValue => "expected value"
  | .expectedWord => "expected ident"
  | .expectedColon => "expected `:`"
  | .expectedArrayEnd => "expected `,` or `]`"
  | .expectedObjectEnd => "expected `,` or `\x7d`"
  | .nameNotString => "key must be a string"
  | .trailingComma => "trailing comma"
  | .trailingCharacters => "trailing characters"
  | .malformedNumber => "invalid number"
  | .numberTooLarge => "number out of range"
  | .malformedEscape => "invalid escape"
  | .controlCharacter => "control character (\\u0000-\\u001F) found while parsing a string"
  | .malformedUtf8 => "invalid unicode code point"
  | .loneSurrogate => "lone leading surrogate in hex escape"
  | .unpairedSurrogate => "unexpected end of hex escape"

/-- A value of a kind that was not expected. -/
inductive Found where
  | null
  | boolean (value : Bool)
  | integer (value : Int)
  | fraction (isNegative : Bool) (magnitude : Decimal.Magnitude)
  | string (text : String)
  | array
  | object
  deriving DecidableEq

def Found.message : Found → String
  | .null => "null"
  | .boolean value => "boolean `" ++ (if value then "true" else "false") ++ "`"
  | .integer value => s!"integer `{value}`"
  | .fraction isNegative magnitude =>
    "floating point `" ++ (if isNegative then "-" else "") ++ magnitude.text ++ "`"
  | .string text => "string " ++ Text.quoted text
  | .array => "sequence"
  | .object => "map"

/-- Why a document cannot be read as the value that is expected. -/
inductive ReadError where
  | malformed (fault : Fault)
  | mistyped (found : Found) (expected : String)
  | outOfRange (value : Int) (expected : String)
  | unknownChoice (name : String) (choices : List String)
  | duplicateMember (name : String)
  | missingMember (name : String)
  | wrongLength (length : Nat) (expected : String)
  /-- A string that is read further by rules of its own. -/
  | misread (message : String)
  deriving DecidableEq

/-- Lists choices in messages. -/
def choiceList (choices : List String) : String :=
  String.intercalate ", " (choices.map fun name => "`" ++ name ++ "`")

/-- The text of an error, without the line and the column where it was found. -/
def ReadError.message : ReadError → String
  | .malformed fault => fault.message
  | .mistyped found expected => "invalid type: " ++ found.message ++ ", expected " ++ expected
  | .outOfRange value expected => s!"invalid value: integer `{value}`, expected {expected}"
  | .unknownChoice name choices =>
    s!"unknown variant `{name}`, expected one of {choiceList choices}"
  | .duplicateMember name => s!"duplicate field `{name}`"
  | .missingMember name => s!"missing field `{name}`"
  | .wrongLength length expected => s!"invalid length {length}, expected {expected}"
  | .misread message => message

end Entitlement.Json
