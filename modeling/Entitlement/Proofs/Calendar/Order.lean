import Entitlement.Calendar.Timestamp

/-! # The order of timestamps

Timestamps are ordered by their instants. Where two of them have the same offset, this is the order
in which they read, from the year down to the nanosecond. A year is counted from March on, so the
days of a month end where those of the next one start, and the leap day ends the year.
-/

namespace Entitlement.Calendar

namespace Date

/-- A date reads earlier than another one: its year is earlier, or else its month, or else its
day. -/
def ReadsBefore (a b : Date) : Prop :=
  a.year < b.year ∨
    a.year = b.year ∧ (a.month < b.month ∨ a.month = b.month ∧ a.day < b.day)

theorem readsBefore_trichotomy (a b : Date) : a.ReadsBefore b ∨ a = b ∨ b.ReadsBefore a := by
  obtain ⟨year, month, day, _, _, _⟩ := a
  obtain ⟨year', month', day', _, _, _⟩ := b
  simp only [ReadsBefore, Date.mk.injEq]
  omega

/-- The year of a date, counted from March on. -/
def marchYear (date : Date) : Int :=
  if date.month ≤ 2 then date.year - 1 else date.year

/-- The month of a date, counted from March on. -/
def marchMonth (date : Date) : Int :=
  if date.month ≤ 2 then date.month + 9 else date.month - 3

/-- The days from 1 March of the year 0 to 1 March of a year. -/
def daysBeforeYear (year : Int) : Int :=
  year / 400 * 146097 + year % 400 * 365 + year % 400 / 4 - year % 400 / 100

theorem dayNumber_eq (date : Date) :
    date.dayNumber =
      daysBeforeYear date.marchYear + daysBeforeMonth date.marchMonth + date.day - 1 - epochShift :=
  rfl

theorem daysBeforeYear_le {year year' : Int} (hle : year ≤ year') :
    daysBeforeYear year ≤ daysBeforeYear year' := by
  unfold daysBeforeYear
  omega

theorem daysBeforeYear_succ (year : Int) :
    daysBeforeYear (year + 1) = daysBeforeYear year + if isLeap (year + 1) then 366 else 365 := by
  unfold daysBeforeYear isLeap
  simp only [decide_eq_true_eq]
  split <;> omega

theorem marchMonth_range (date : Date) : 0 ≤ date.marchMonth ∧ date.marchMonth ≤ 11 := by
  have hmonth := date.month_range
  unfold marchMonth
  split <;> omega

/-- The months of a year but the last one, February, are as long as the days between their
starts. -/
theorem daysInMonth_le {year : Int} {month : Nat} (hmonth : month ≠ 2)
    (hrange : 1 ≤ month ∧ month ≤ 12) :
    let fromMarch : Int := if month ≤ 2 then month + 9 else month - 3
    daysBeforeMonth fromMarch + daysInMonth year month ≤ daysBeforeMonth (fromMarch + 1) := by
  have hmonths : month = 1 ∨ month = 3 ∨ month = 4 ∨ month = 5 ∨ month = 6 ∨ month = 7 ∨ month = 8 ∨
      month = 9 ∨ month = 10 ∨ month = 11 ∨ month = 12 := by omega
  rcases hmonths with rfl | rfl | rfl | rfl | rfl | rfl | rfl | rfl | rfl | rfl | rfl <;>
    simp [daysInMonth, daysBeforeMonth]

/-- The days of a month end before those of the next one start. -/
theorem day_le (date : Date) (hmonth : date.month ≠ 2) :
    daysBeforeMonth date.marchMonth + date.day ≤ daysBeforeMonth (date.marchMonth + 1) := by
  have hlength := @daysInMonth_le date.year _ hmonth date.month_range
  have hday := date.day_range.2
  unfold marchMonth
  omega

/-- The days of a year end before those of the next one start. -/
theorem dayOfYear_le (date : Date) :
    daysBeforeYear date.marchYear + daysBeforeMonth date.marchMonth + date.day ≤
      daysBeforeYear (date.marchYear + 1) := by
  rw [daysBeforeYear_succ]
  by_cases hmonth : date.month = 2
  · -- The leap day belongs to the year that ends with it.
    have hday := date.day_range.2
    have hyear : date.year - 1 + 1 = date.year := by omega
    simp only [daysInMonth, marchYear, marchMonth, daysBeforeMonth, hmonth, Nat.le_refl, if_true,
      hyear] at hday ⊢
    split at hday <;> simp_all <;> omega
  · have hends := date.day_le hmonth
    have hrange := date.month_range
    have hlast : daysBeforeMonth (date.marchMonth + 1) ≤ 365 := by
      unfold daysBeforeMonth marchMonth
      split <;> omega
    split <;> omega

/-- A date that reads earlier than another one lies before it. -/
theorem dayNumber_lt {a b : Date} (hbefore : a.ReadsBefore b) : a.dayNumber < b.dayNumber := by
  have hfrom : a.marchYear < b.marchYear ∨ a.marchYear = b.marchYear ∧
      (a.marchMonth < b.marchMonth ∨ a.marchMonth = b.marchMonth ∧ a.day < b.day) := by
    have hmonth := a.month_range
    have hmonth' := b.month_range
    unfold ReadsBefore at hbefore
    unfold marchYear marchMonth
    split <;> split <;> omega
  have hyearEnds := a.dayOfYear_le
  have hday := b.day_range
  have hrange := a.marchMonth_range
  have hrange' := b.marchMonth_range
  rw [dayNumber_eq, dayNumber_eq]
  rcases hfrom with hyear | ⟨hyear, hmonth | ⟨hmonth, hdays⟩⟩
  · have hnext := daysBeforeYear_le (Int.add_one_le_of_lt hyear)
    have hstart : 0 ≤ daysBeforeMonth b.marchMonth := by
      unfold daysBeforeMonth
      omega
    omega
  · have hends := a.day_le fun hlast => by
      unfold marchMonth at hmonth hrange'
      omega
    have hnext : daysBeforeMonth (a.marchMonth + 1) ≤ daysBeforeMonth b.marchMonth := by
      unfold daysBeforeMonth
      omega
    rw [hyear]
    omega
  · rw [hyear, hmonth]
    omega

end Date

/-- A time of day reads earlier than another one: its hour is earlier, or else its minute, or else
its second, or else its nanosecond. -/
def TimeOfDay.ReadsBefore (a b : TimeOfDay) : Prop :=
  a.hour < b.hour ∨ a.hour = b.hour ∧ (a.minute < b.minute ∨ a.minute = b.minute ∧
    (a.second < b.second ∨ a.second = b.second ∧ a.nanosecond < b.nanosecond))

theorem TimeOfDay.readsBefore_iff {a b : TimeOfDay} :
    a.ReadsBefore b ↔
      a.seconds < b.seconds ∨ a.seconds = b.seconds ∧ a.nanosecond < b.nanosecond := by
  obtain ⟨hour, minute, second, nanosecond, _, _, _, _⟩ := a
  obtain ⟨hour', minute', second', nanosecond', _, _, _, _⟩ := b
  simp only [ReadsBefore, seconds]
  omega

theorem TimeOfDay.seconds_lt (time : TimeOfDay) : time.seconds < 86400 := by
  obtain ⟨hour, minute, second, _, _, _, _, _⟩ := time
  simp only [seconds]
  omega

namespace Timestamp

/-- A timestamp reads earlier than another one, whatever their offsets are. -/
def ReadsBefore (a b : Timestamp) : Prop :=
  a.date.ReadsBefore b.date ∨ a.date = b.date ∧ a.time.ReadsBefore b.time

theorem lt_of_date {a b : Timestamp} (hoffset : a.offset = b.offset)
    (hdate : a.date.ReadsBefore b.date) : a.instant < b.instant := by
  have hday := Date.dayNumber_lt hdate
  have hseconds := a.time.seconds_lt
  have hnanos := a.time.nanosecond_range
  simp only [instant, localSeconds, hoffset, secondsPerDay, nanosPerSecond]
  omega

theorem lt_iff_time {a b : Timestamp} (hoffset : a.offset = b.offset) (hdate : a.date = b.date) :
    a.instant < b.instant ↔ a.time.ReadsBefore b.time := by
  have hnanos := a.time.nanosecond_range
  have hnanos' := b.time.nanosecond_range
  rw [TimeOfDay.readsBefore_iff]
  simp only [instant, localSeconds, hoffset, hdate, secondsPerDay, nanosPerSecond]
  omega

/-- Timestamps of one offset are ordered as they read. -/
theorem lt_iff_readsBefore {a b : Timestamp} (hoffset : a.offset = b.offset) :
    a < b ↔ a.ReadsBefore b := by
  constructor
  · intro hlt
    rcases Date.readsBefore_trichotomy a.date b.date with hearlier | hsame | hlater
    · exact .inl hearlier
    · exact .inr ⟨hsame, (lt_iff_time hoffset hsame).mp hlt⟩
    · exact absurd hlt (Int.lt_asymm (lt_of_date hoffset.symm hlater))
  · rintro (hdate | ⟨hdate, htime⟩)
    · exact lt_of_date hoffset hdate
    · exact (lt_iff_time hoffset hdate).mpr htime

end Timestamp

end Entitlement.Calendar
