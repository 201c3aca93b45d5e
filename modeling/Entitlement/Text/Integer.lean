import Entitlement.Text.Blank

/-! # Integers in texts

An integer is a run of ASCII digits after an optional sign; a minus sign counts as a digit out of
place where no negative number fits. The digits are read from the left, and the first thing that is
wrong is reported: a character that is no digit, or a value that no longer fits.
-/

namespace Entitlement.Text

/-- Why a text is no integer of some range. -/
inductive IntegerError where
  | empty | invalidDigit | tooLarge | tooSmall
  deriving DecidableEq

def IntegerError.message : IntegerError → String
  | .empty => "cannot parse integer from empty string"
  | .invalidDigit => "invalid digit found in string"
  | .tooLarge => "number too large to fit in target type"
  | .tooSmall => "number too small to fit in target type"

/-- Reads digits after a value that has been read before them. -/
def readDigits (limit : Nat) (overflow : IntegerError) (value : Nat) :
    List Char → Except IntegerError Nat
  | [] => .ok value
  | c :: rest =>
    if c.isDigit then
      let value := 10 * value + (c.toNat - '0'.toNat)
      if limit < value then .error overflow else readDigits limit overflow value rest
    else .error .invalidDigit

/-- Reads a nonempty run of digits. -/
def readMagnitude (limit : Nat) (overflow : IntegerError) :
    List Char → Except IntegerError Nat
  | [] => .error .invalidDigit
  | digits => readDigits limit overflow 0 digits

/-- Reads a natural number up to a limit. -/
def naturalOfText (limit : Nat) (text : String) : Except IntegerError Nat :=
  match text.toList with
  | [] => .error .empty
  | '+' :: digits => readMagnitude limit .tooLarge digits
  | digits => readMagnitude limit .tooLarge digits

/-- The number of negative integers of 64 bits. -/
def integerBound : Nat := UInt64.size / 2

/-- Reads an integer of 64 bits. -/
def integerOfText (text : String) : Except IntegerError Int :=
  match text.toList with
  | [] => .error .empty
  | '+' :: digits => (readMagnitude (integerBound - 1) .tooLarge digits).map Int.ofNat
  | '-' :: digits => (readMagnitude integerBound .tooSmall digits).map fun n => -(n : Int)
  | digits => (readMagnitude (integerBound - 1) .tooLarge digits).map Int.ofNat

end Entitlement.Text
