import Entitlement.Calendar.Timestamp
import Entitlement.Text.Bytes

/-! # The RFC 3339 form of timestamps

The form has a fixed width up to the fraction of a second. Reading accepts any separator of one byte
between date and time, any number of fraction digits, of which nine count, either case of the letter
for UTC, and a leap second at the end of a month, which is read as the last nanosecond before it.
Writing uses the letter `T`, no more fraction digits than needed, and `Z` where the offset is zero.
-/

namespace Entitlement.Calendar

/-- Why a text is no timestamp. -/
inductive TimestampError where
  /-- A part of the text does not have its form. -/
  | component (name : String)
  /-- A separating character is missing. -/
  | literal
  /-- Something follows the timestamp. -/
  | trailing
  /-- A part has its form, but a value that does not exist. -/
  | range (name : String)
  deriving DecidableEq

def TimestampError.message : TimestampError → String
  | .component name => s!"the '{name}' component could not be parsed"
  | .literal => "a character literal was not valid"
  | .trailing => "unexpected trailing characters; the end of input was expected"
  | .range name => s!"{name} was not in range"

namespace Rfc3339

/-- The value of a number of bytes that all have to be digits. -/
def digits? (count : Nat) (value : Nat) (s : List UInt8) : Option (Nat × List UInt8) :=
  match count, s with
  | 0, s => some (value, s)
  | _ + 1, [] => none
  | count + 1, b :: rest =>
    if Text.isDigit b then digits? count (value * 10 + (b.toNat - 48)) rest else none

/-- A part of fixed width. -/
def number (name : String) (count : Nat) (s : List UInt8) :
    Except TimestampError (Nat × List UInt8) :=
  match digits? count 0 s with
  | some result => .ok result
  | none => .error (.component name)

/-- What is left after a separating character. -/
def literal (c : Char) (s : List UInt8) : Except TimestampError (List UInt8) :=
  match s with
  | [] => .error .literal
  | b :: rest => if b = c.toUInt8 then .ok rest else .error .literal

/-- What is left after the byte between date and time. -/
def separator (s : List UInt8) : Except TimestampError (List UInt8) :=
  match s with
  | [] => .error (.component "separator")
  | _ :: rest => .ok rest

/-- The nanoseconds that fraction digits denote; a digit after the ninth one counts nothing. -/
def fractionValue (unit value : Nat) : List UInt8 → Nat
  | [] => value
  | b :: rest => fractionValue (unit / 10) (value + (b.toNat - 48) * unit) rest

/-- The nanoseconds of a fraction of a second, which may be missing. -/
def fraction (s : List UInt8) : Except TimestampError (Nat × List UInt8) :=
  match s with
  | [] => .ok (0, [])
  | b :: rest =>
    if b = '.'.toUInt8 then
      let run := rest.takeWhile Text.isDigit
      if run = [] then .error (.component "subsecond")
      else .ok (fractionValue 100000000 0 run, rest.dropWhile Text.isDigit)
    else .ok (0, b :: rest)

/-- The offset of given hours and minutes, with a sign for both. -/
def offsetOf? (isNegative : Bool) (hours minutes : Nat) : Option Offset :=
  let total : Int := hours * 60 + minutes
  let signed := if isNegative then -total else total
  if h : -1440 < signed ∧ signed < 1440 then some ⟨signed, h⟩ else none

/-- The offset from UTC. -/
def offset (s : List UInt8) : Except TimestampError (Offset × List UInt8) :=
  match s with
  | [] => .error (.component "offset hour")
  | b :: rest =>
    if b = 'Z'.toUInt8 ∨ b = 'z'.toUInt8 then .ok (.utc, rest)
    else if b ≠ '+'.toUInt8 ∧ b ≠ '-'.toUInt8 then .error (.component "offset hour")
    else do
      let (hours, rest) ← number "offset hour" 2 rest
      if 23 < hours then
        .error (.component "offset hour")
      else
        let rest ← literal ':' rest
        let (minutes, rest) ← number "offset minute" 2 rest
        if 59 < minutes then .error (.range "offset minute")
        else
          match offsetOf? (b = '-'.toUInt8) hours minutes with
          | none => .error (.range "offset minute")
          | some offset => .ok (offset, rest)

/-- The numbers of a timestamp whose ranges have not been checked. -/
structure Parts where
  year : Nat
  month : Nat
  day : Nat
  hour : Nat
  minute : Nat
  second : Nat
  nanosecond : Nat
  offset : Offset

/-- Reads the numbers of a timestamp. -/
def parts (s : List UInt8) : Except TimestampError Parts := do
  let (year, s) ← number "year" 4 s
  let s ← literal '-' s
  let (month, s) ← number "month" 2 s
  if month = 0 then
    throw (.component "month")
  let s ← literal '-' s
  let (day, s) ← number "day" 2 s
  let s ← separator s
  let (hour, s) ← number "hour" 2 s
  let s ← literal ':' s
  let (minute, s) ← number "minute" 2 s
  let s ← literal ':' s
  let (second, s) ← number "second" 2 s
  let (nanosecond, s) ← fraction s
  let (offset, s) ← offset s
  if s ≠ [] then
    throw .trailing
  return { year, month, day, hour, minute, second, nanosecond, offset }

/-- The date of given numbers. -/
def dateOf (year month day : Nat) : Except TimestampError Date :=
  if 12 < month then .error (.range "month")
  else
    match Date.of? year month day with
    | some date => .ok date
    | none => .error (.range "day")

/-- The time of day of given numbers. -/
def timeOf (hour minute second nanosecond : Nat) : Except TimestampError TimeOfDay :=
  if hhour : hour < 24 then
    if hminute : minute < 60 then
      if hsecond : second < 60 then
        if hnano : nanosecond < 1000000000 then
          .ok ⟨hour, minute, second, nanosecond, hhour, hminute, hsecond, hnano⟩
        else .error (.range "nanosecond")
      else .error (.range "second")
    else .error (.range "minute")
  else .error (.range "hour")

/-- Whether a timestamp is the last nanosecond of a month in UTC. -/
def isEndOfMonth (t : Timestamp) : Bool :=
  match Timestamp.ofLocal? (t.localSeconds - t.offset.minutes * 60) t.time.nanosecond .utc with
  | none => false
  | some utc =>
    utc.time.hour == 23 && utc.time.minute == 59 && utc.time.second == 59 &&
      utc.time.nanosecond == 999999999 &&
      utc.date.day == daysInMonth utc.date.year utc.date.month

/-- The timestamp of given numbers. -/
def ofParts (parts : Parts) : Except TimestampError Timestamp := do
  let isLeapSecond := parts.second == 60
  let second := if isLeapSecond then 59 else parts.second
  let nanosecond := if isLeapSecond then 999999999 else parts.nanosecond
  let date ← dateOf parts.year parts.month parts.day
  let time ← timeOf parts.hour parts.minute second nanosecond
  let t : Timestamp := ⟨date, time, parts.offset⟩
  if isLeapSecond && !isEndOfMonth t then .error (.range "second") else .ok t

/-- Reads a timestamp. -/
def parse (text : String) : Except TimestampError Timestamp := do
  ofParts (← parts (Text.bytes text))

/-- The fraction of a second with its point, or nothing where it is zero. -/
def writeFraction (nanosecond : Nat) : String :=
  if nanosecond = 0 then "" else "." ++ Timestamp.fractionText nanosecond

/-- The offset from UTC. -/
def writeOffset (offset : Offset) : String :=
  let minutes := offset.minutes.natAbs
  if minutes = 0 then "Z"
  else
    (if offset.minutes < 0 then "-" else "+") ++
      Text.padded 2 (minutes / 60) ++ ":" ++ Text.padded 2 (minutes % 60)

/-- Writes a timestamp, if its year has no more than four digits and no sign. -/
def format? (t : Timestamp) : Option String :=
  if t.date.year < 0 then none
  else
    some <|
      Text.padded 4 t.date.year.toNat ++ "-" ++ Text.padded 2 t.date.month ++ "-" ++
        Text.padded 2 t.date.day ++ "T" ++ Text.padded 2 t.time.hour ++ ":" ++
        Text.padded 2 t.time.minute ++ ":" ++ Text.padded 2 t.time.second ++
        writeFraction t.time.nanosecond ++ writeOffset t.offset

/-- What is said where a timestamp cannot be written. -/
def unwritable : String :=
  "The year component cannot be formatted into the requested format."

end Rfc3339

end Entitlement.Calendar
