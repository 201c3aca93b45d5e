/-! # Calendar dates

Dates of the proleptic Gregorian calendar, for the years from -9999 to 9999, and the count of days
from 1 January 1970. A date that does not exist cannot be formed.
-/

namespace Entitlement.Calendar

/-- Whether a year has a 29th of February. -/
def isLeap (year : Int) : Bool :=
  year % 4 = 0 ∧ (year % 100 ≠ 0 ∨ year % 400 = 0)

/-- The number of days of a month. -/
def daysInMonth (year : Int) (month : Nat) : Nat :=
  if month = 2 then if isLeap year then 29 else 28
  else if month = 4 ∨ month = 6 ∨ month = 9 ∨ month = 11 then 30
  else 31

/-- The last year of the calendar; the first one is its negative. -/
def lastYear : Int := 9999

/-- A date of the calendar. -/
structure Date where
  year : Int
  month : Nat
  day : Nat
  year_range : -lastYear ≤ year ∧ year ≤ lastYear
  month_range : 1 ≤ month ∧ month ≤ 12
  day_range : 1 ≤ day ∧ day ≤ daysInMonth year month
  deriving DecidableEq

/-- The date with the given year, month and day, if it exists. -/
def Date.of? (year : Int) (month day : Nat) : Option Date :=
  if hyear : -lastYear ≤ year ∧ year ≤ lastYear then
    if hmonth : 1 ≤ month ∧ month ≤ 12 then
      if hday : 1 ≤ day ∧ day ≤ daysInMonth year month then
        some ⟨year, month, day, hyear, hmonth, hday⟩
      else none
    else none
  else none

/-- The days from 1 March to the first day of a month, counted from March on. -/
def daysBeforeMonth (monthFromMarch : Int) : Int :=
  (153 * monthFromMarch + 2) / 5

/-- The days from 1 March of the year 0 to 1 January 1970. -/
def epochShift : Int := 719468

/-- The number of days from 1 January 1970 to a date. Years are counted from March on, so that a
leap day is the last day of its year, and in cycles of 400 years, which all have the same length. -/
def Date.dayNumber (date : Date) : Int :=
  let isEarly := date.month ≤ 2
  let year := if isEarly then date.year - 1 else date.year
  let month : Int := if isEarly then date.month + 9 else date.month - 3
  let yearOfCycle := year % 400
  year / 400 * 146097 + yearOfCycle * 365 + yearOfCycle / 4 - yearOfCycle / 100 +
    daysBeforeMonth month + date.day - 1 - epochShift

/-- The date that lies a number of days after 1 January 1970, if the calendar reaches that far. -/
def Date.ofDayNumber? (n : Int) : Option Date :=
  let shifted := n + epochShift
  let dayOfCycle := shifted % 146097
  let yearOfCycle :=
    (dayOfCycle - dayOfCycle / 1460 + dayOfCycle / 36524 - dayOfCycle / 146096) / 365
  let dayOfYear := dayOfCycle - (yearOfCycle * 365 + yearOfCycle / 4 - yearOfCycle / 100)
  let month := (5 * dayOfYear + 2) / 153
  let day := dayOfYear - daysBeforeMonth month + 1
  let year := shifted / 146097 * 400 + yearOfCycle
  if month < 10 then Date.of? year (month + 3).toNat day.toNat
  else Date.of? (year + 1) (month - 9).toNat day.toNat

end Entitlement.Calendar
