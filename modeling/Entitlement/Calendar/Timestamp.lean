import Entitlement.Calendar.Date
import Entitlement.Text.Blank

/-! # Timestamps

A timestamp is a local date and time of day together with the offset of local time from UTC. Two
timestamps can name one instant with different offsets; they are then different timestamps, but the
order of time does not tell them apart.
-/

namespace Entitlement.Calendar

/-- A time of day with nanoseconds. -/
structure TimeOfDay where
  hour : Nat
  minute : Nat
  second : Nat
  nanosecond : Nat
  hour_range : hour < 24
  minute_range : minute < 60
  second_range : second < 60
  nanosecond_range : nanosecond < 1000000000
  deriving DecidableEq

/-- The offset of a local time from UTC, in minutes. -/
structure Offset where
  minutes : Int
  range : -1440 < minutes ∧ minutes < 1440
  deriving DecidableEq

def Offset.utc : Offset := ⟨0, by decide⟩

/-- A local date and time with its offset from UTC. -/
structure Timestamp where
  date : Date
  time : TimeOfDay
  offset : Offset
  deriving DecidableEq

def TimeOfDay.seconds (time : TimeOfDay) : Nat :=
  (time.hour * 60 + time.minute) * 60 + time.second

/-- The time of day after a number of seconds and nanoseconds, of which full days are left out. -/
def TimeOfDay.ofSeconds (seconds nanosecond : Nat) : TimeOfDay where
  hour := seconds / 3600 % 24
  minute := seconds / 60 % 60
  second := seconds % 60
  nanosecond := nanosecond % 1000000000
  hour_range := Nat.mod_lt _ (by decide)
  minute_range := Nat.mod_lt _ (by decide)
  second_range := Nat.mod_lt _ (by decide)
  nanosecond_range := Nat.mod_lt _ (by decide)

def secondsPerDay : Int := 86400

def nanosPerSecond : Int := 1000000000

namespace Timestamp

/-- The seconds from midnight of 1 January 1970 to a local date and time. -/
def localSeconds (t : Timestamp) : Int :=
  t.date.dayNumber * secondsPerDay + t.time.seconds

/-- The instant of a timestamp, in nanoseconds from midnight UTC of 1 January 1970. -/
def instant (t : Timestamp) : Int :=
  (t.localSeconds - t.offset.minutes * 60) * nanosPerSecond + t.time.nanosecond

/-- Timestamps are ordered by their instants. -/
instance : LE Timestamp := ⟨fun a b => a.instant ≤ b.instant⟩

instance : LT Timestamp := ⟨fun a b => a.instant < b.instant⟩

instance (a b : Timestamp) : Decidable (a ≤ b) :=
  inferInstanceAs (Decidable (a.instant ≤ b.instant))

instance (a b : Timestamp) : Decidable (a < b) :=
  inferInstanceAs (Decidable (a.instant < b.instant))

/-- The timestamp whose local date and time lies a number of seconds and nanoseconds after midnight
of 1 January 1970, if the calendar reaches that far. -/
def ofLocal? (seconds : Int) (nanosecond : Nat) (offset : Offset) : Option Timestamp :=
  (Date.ofDayNumber? (seconds / secondsPerDay)).map fun date =>
    ⟨date, .ofSeconds (seconds % secondsPerDay).toNat nanosecond, offset⟩

/-- The timestamp in UTC that lies a number of seconds after midnight of 1 January 1970. -/
def ofEpoch? (seconds : Int) : Option Timestamp :=
  ofLocal? seconds 0 .utc

/-- Moves a timestamp by a number of nanoseconds and keeps its offset. -/
def addNanos? (t : Timestamp) (nanos : Int) : Option Timestamp :=
  let total := t.localSeconds * nanosPerSecond + t.time.nanosecond + nanos
  ofLocal? (total / nanosPerSecond) (total % nanosPerSecond).toNat t.offset

/-- Moves a timestamp by a number of days of 86400 seconds. -/
def addDays? (t : Timestamp) (days : Int) : Option Timestamp :=
  t.addNanos? (days * secondsPerDay * nanosPerSecond)

/-! ## Text in messages -/

/-- A year with at least four digits; the sign is written before the digits where there is one. -/
def yearText (year : Int) : String :=
  (if year < 0 then "-" else "") ++ Text.padded 4 year.natAbs

/-- The digits of a second below one second, without zeros at the end but with at least one
digit. -/
def fractionText (nanosecond : Nat) : String :=
  let digits := (Text.padded 9 nanosecond).toList
  match (digits.reverse.dropWhile (· == '0')).reverse with
  | [] => "0"
  | kept => String.ofList kept

/-- An offset with its sign, hours, minutes and seconds. -/
def offsetText (offset : Offset) : String :=
  let minutes := offset.minutes.natAbs
  (if offset.minutes < 0 then "-" else "+") ++
    Text.padded 2 (minutes / 60) ++ ":" ++ Text.padded 2 (minutes % 60) ++ ":00"

/-- A timestamp as messages show it. -/
def display (t : Timestamp) : String :=
  yearText t.date.year ++ "-" ++ Text.padded 2 t.date.month ++ "-" ++ Text.padded 2 t.date.day ++
    " " ++ toString t.time.hour ++ ":" ++ Text.padded 2 t.time.minute ++ ":" ++
    Text.padded 2 t.time.second ++ "." ++ fractionText t.time.nanosecond ++ " " ++
    offsetText t.offset

end Timestamp

end Entitlement.Calendar
