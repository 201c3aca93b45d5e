import Entitlement.Proofs.Calendar.Days
import Entitlement.Proofs.Calendar.Order
import Entitlement.Proofs.Calendar.Rfc3339

/-! # The reach of the calendar

Every date is found under its number, so a timestamp can be moved to wherever there is a timestamp
with its offset. Moving it fails at the ends of the calendar and nowhere else.
-/

namespace Entitlement.Calendar

namespace Date

/-- A day of a year of the cycle of 400 years is found in that year. -/
theorem yearOfCycle_eq {year day : Int} (hyear : 0 ≤ year ∧ year < 400) (hlow : 0 ≤ day)
    (hhigh : day < if isLeap (year + 1) then 366 else 365) :
    let dayOfCycle := year * 365 + year / 4 - year / 100 + day
    (0 ≤ dayOfCycle ∧ dayOfCycle < 146097) ∧
      (dayOfCycle - dayOfCycle / 1460 + dayOfCycle / 36524 - dayOfCycle / 146096) / 365 = year := by
  intro dayOfCycle
  have hday : dayOfCycle = year * 365 + year / 4 - year / 100 + day := rfl
  clear_value dayOfCycle
  unfold isLeap at hhigh
  simp only [decide_eq_true_eq] at hhigh
  -- Only a leap year has a day 365, and of the years that end a century only the last is one.
  have hleapDay : day < 365 ∨ day = 365 ∧ year % 4 = 3 ∧ (year = 399 ∨ year % 100 < 99) := by
    split at hhigh <;> omega
  have hleap : dayOfCycle / 1460 = year / 4 ∨ dayOfCycle / 1460 = year / 4 + 1 := by omega
  have hcentury : dayOfCycle / 36524 = year / 100 ∨
      dayOfCycle / 36524 = year / 100 + 1 ∧ dayOfCycle = 146096 := by omega
  have hlast : dayOfCycle / 146096 = if dayOfCycle = 146096 then 1 else 0 := by split <;> omega
  refine ⟨by omega, ?_⟩
  rcases hleap with h | h <;> rcases hcentury with h' | ⟨h', -⟩ <;> split at hlast <;>
    rw [h, h', hlast] <;> omega

theorem isLeap_emod (year : Int) : isLeap (year % 400 + 1) = isLeap (year + 1) := by
  have h4 : (year % 400 + 1) % 4 = (year + 1) % 4 := by omega
  have h100 : (year % 400 + 1) % 100 = (year + 1) % 100 := by omega
  have h400 : (year % 400 + 1) % 400 = (year + 1) % 400 := by omega
  rw [isLeap, isLeap, h4, h100, h400]

/-- The days of a year from March on before a date. -/
def dayOfYear (date : Date) : Int :=
  daysBeforeMonth date.marchMonth + date.day - 1

theorem dayOfYear_range (date : Date) :
    0 ≤ date.dayOfYear ∧ date.dayOfYear < if isLeap (date.marchYear + 1) then 366 else 365 := by
  have hday := date.day_range
  have hmonth := date.marchMonth_range
  have hends := date.dayOfYear_le
  rw [daysBeforeYear_succ] at hends
  unfold dayOfYear
  refine ⟨?_, by omega⟩
  unfold daysBeforeMonth
  omega

/-- A day of a year is found in its month. -/
theorem marchMonth_eq (date : Date) : (5 * date.dayOfYear + 2) / 153 = date.marchMonth := by
  have hday := date.day_range
  have hrange := date.marchMonth_range
  have hmonths := date.month_range
  have hyear := date.dayOfYear_range
  unfold dayOfYear daysBeforeMonth at *
  by_cases hmonth : date.month = 2
  · have hlast : date.marchMonth = 11 := by
      rw [marchMonth, hmonth]
      rfl
    split at hyear <;> omega
  · have hends := date.day_le hmonth
    unfold daysBeforeMonth at hends
    omega

/-- A date is found under its number. -/
theorem ofDayNumber?_dayNumber (date : Date) : ofDayNumber? date.dayNumber = some date := by
  obtain ⟨hlow, hhigh⟩ := date.dayOfYear_range
  rw [← isLeap_emod] at hhigh
  obtain ⟨hcycle, hyear⟩ := yearOfCycle_eq (by omega) hlow hhigh
  have hmonth := date.marchMonth_eq
  have hshifted : date.dayNumber + epochShift = date.marchYear / 400 * 146097 +
      (date.marchYear % 400 * 365 + date.marchYear % 400 / 4 - date.marchYear % 400 / 100 +
        date.dayOfYear) := by
    rw [dayNumber_eq, daysBeforeYear, dayOfYear]
    omega
  unfold ofDayNumber?
  dsimp only at hcycle hyear ⊢
  generalize hdayOfCycle : date.marchYear % 400 * 365 + date.marchYear % 400 / 4 -
    date.marchYear % 400 / 100 + date.dayOfYear = dayOfCycle at *
  have hmod : (date.dayNumber + epochShift) % 146097 = dayOfCycle := by omega
  have hdiv : (date.dayNumber + epochShift) / 146097 = date.marchYear / 400 := by omega
  have hdays : dayOfCycle - (date.marchYear % 400 * 365 + date.marchYear % 400 / 4 -
      date.marchYear % 400 / 100) = date.dayOfYear := by omega
  have hday : date.dayOfYear - daysBeforeMonth date.marchMonth + 1 = date.day := by
    unfold dayOfYear
    omega
  have hyears : date.marchYear / 400 * 400 + date.marchYear % 400 = date.marchYear := by omega
  have hmonths := date.month_range
  rw [hmod, hdiv, hyear, hdays, hmonth, hday, hyears, marchMonth, marchYear, ← date.of?_self]
  split
  next hearly =>
    rw [if_neg (by omega)]
    congr 1 <;> omega
  next hlate =>
    rw [if_pos (by omega)]
    congr 1
    omega

end Date

theorem TimeOfDay.ofSeconds_seconds (time : TimeOfDay) :
    ofSeconds time.seconds time.nanosecond = time := by
  obtain ⟨hour, minute, second, nanosecond, _, _, _, _⟩ := time
  simp only [ofSeconds, seconds, TimeOfDay.mk.injEq]
  omega

namespace Timestamp

theorem ofLocal?_localSeconds (t : Timestamp) :
    ofLocal? t.localSeconds t.time.nanosecond t.offset = some t := by
  have hseconds := t.time.seconds_lt
  have hday : t.localSeconds / secondsPerDay = t.date.dayNumber := by
    unfold localSeconds secondsPerDay
    omega
  have htime : (t.localSeconds % secondsPerDay).toNat = t.time.seconds := by
    unfold localSeconds secondsPerDay
    omega
  rw [ofLocal?, hday, htime, Date.ofDayNumber?_dayNumber, Option.map_some,
    TimeOfDay.ofSeconds_seconds]

/-- A timestamp is moved to the timestamp that lies as much later and has the same offset. -/
theorem addNanos?_eq_some_iff {t moved : Timestamp} {nanos : Int} :
    t.addNanos? nanos = some moved ↔
      moved.instant = t.instant + nanos ∧ moved.offset = t.offset := by
  refine ⟨addNanos?_eq_some, fun ⟨hinstant, hoffset⟩ => ?_⟩
  have hnanos := moved.time.nanosecond_range
  simp only [instant, hoffset, nanosPerSecond] at hinstant
  have hseconds : (t.localSeconds * nanosPerSecond + t.time.nanosecond + nanos) / nanosPerSecond =
      moved.localSeconds := by
    unfold nanosPerSecond
    omega
  have hrest : ((t.localSeconds * nanosPerSecond + t.time.nanosecond + nanos) %
      nanosPerSecond).toNat = moved.time.nanosecond := by
    unfold nanosPerSecond
    omega
  rw [addNanos?, hseconds, hrest, ← hoffset, ofLocal?_localSeconds]

/-- A timestamp cannot be moved exactly if the calendar does not reach that far. -/
theorem addNanos?_eq_none_iff {t : Timestamp} {nanos : Int} :
    t.addNanos? nanos = none ↔
      ∀ moved : Timestamp, moved.offset = t.offset → moved.instant ≠ t.instant + nanos := by
  rw [Option.eq_none_iff_forall_ne_some]
  refine forall_congr' fun moved => ?_
  rw [Ne, addNanos?_eq_some_iff, not_and']

end Timestamp

end Entitlement.Calendar
