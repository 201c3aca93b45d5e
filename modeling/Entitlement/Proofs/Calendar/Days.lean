import Entitlement.Calendar.Timestamp

/-! # Moving timestamps

The date that is found for a number of days has that number. So a timestamp that is moved lies
exactly as much later as it was moved, and it keeps the offset in which it is told.
-/

namespace Entitlement.Calendar

namespace Date

theorem of?_eq_some {year : Int} {month day : Nat} {date : Date}
    (hdate : of? year month day = some date) :
    date.year = year ∧ date.month = month ∧ date.day = day := by
  unfold of? at hdate
  split at hdate
  next =>
    split at hdate
    next =>
      split at hdate
      next =>
        cases hdate
        exact ⟨rfl, rfl, rfl⟩
      next => cases hdate
    next => cases hdate
  next => cases hdate

/-- A day of the cycle of 400 years lies in one of its years. -/
theorem yearOfCycle_range {day : Int} (hlow : 0 ≤ day) (hhigh : day < 146097) :
    let year := (day - day / 1460 + day / 36524 - day / 146096) / 365
    (0 ≤ year ∧ year < 400) ∧ 0 ≤ day - (year * 365 + year / 4 - year / 100) ∧
      day - (year * 365 + year / 4 - year / 100) ≤ 366 := by
  intro year
  have hyear : year = (day - day / 1460 + day / 36524 - day / 146096) / 365 := rfl
  clear_value year
  have hcentury : day / 36524 = 0 ∨ day / 36524 = 1 ∨ day / 36524 = 2 ∨ day / 36524 = 3 ∨
      day / 36524 = 4 := by omega
  have hlast : day / 146096 = 0 ∨ day / 146096 = 1 := by omega
  refine ⟨⟨by omega, by omega⟩, ?_, ?_⟩
  · -- Before the leap day of four years is over, fewer days have been counted for it than there
    -- were.
    rcases Int.lt_or_le (day / 1460) (year / 4) with hleap | hleap <;>
      rcases hcentury with h | h | h | h | h <;> rcases hlast with h' | h' <;>
        rw [h, h'] at hyear <;> omega
  · rcases hcentury with h | h | h | h | h <;> rcases hlast with h' | h' <;>
      rw [h, h'] at hyear <;> omega

/-- A date is found under its own number. -/
theorem dayNumber_of_ofDayNumber? {n : Int} {date : Date} (hdate : ofDayNumber? n = some date) :
    date.dayNumber = n := by
  have hday : 0 ≤ (n + epochShift) % 146097 ∧ (n + epochShift) % 146097 < 146097 :=
    ⟨Int.emod_nonneg _ (by decide), Int.emod_lt_of_pos _ (by decide)⟩
  have hsplit := Int.emod_add_mul_ediv (n + epochShift) 146097
  obtain ⟨hyear, hlow, hhigh⟩ := yearOfCycle_range hday.1 hday.2
  unfold ofDayNumber? at hdate
  dsimp only at hdate hyear hlow hhigh
  generalize (n + epochShift) % 146097 = day at *
  generalize (n + epochShift) / 146097 = cycle at *
  generalize (day - day / 1460 + day / 36524 - day / 146096) / 365 = year at *
  generalize hdayOfYear : day - (year * 365 + year / 4 - year / 100) = dayOfYear at *
  generalize hmonth : (5 * dayOfYear + 2) / 153 = month at *
  have hpositive := date.day_range.1
  have hcycle : (cycle * 400 + year) / 400 = cycle := by omega
  have hyearOfCycle : (cycle * 400 + year) % 400 = year := by omega
  unfold dayNumber
  -- January and February belong to the year that started in March before them.
  split at hdate
  next hlate =>
    obtain ⟨hyears, hmonths, hdays⟩ := of?_eq_some hdate
    have hafter : ¬ date.month ≤ 2 := by omega
    have hfromMarch : (date.month : Int) - 3 = month := by omega
    simp only [hafter, if_false, hyears, hfromMarch, hcycle, hyearOfCycle]
    omega
  next hearly =>
    obtain ⟨hyears, hmonths, hdays⟩ := of?_eq_some hdate
    have hbefore : date.month ≤ 2 := by omega
    have hfromMarch : (date.month : Int) + 9 = month := by omega
    have hstart : cycle * 400 + year + 1 - 1 = cycle * 400 + year := by omega
    simp only [hbefore, if_true, hyears, hfromMarch, hstart, hcycle, hyearOfCycle]
    omega

end Date

namespace Timestamp

theorem seconds_ofSeconds {seconds nanosecond : Nat} (hseconds : seconds < 86400) :
    (TimeOfDay.ofSeconds seconds nanosecond).seconds = seconds := by
  simp only [TimeOfDay.ofSeconds, TimeOfDay.seconds]
  omega

/-- The local time that is found lies where it was looked for. -/
theorem ofLocal?_eq_some {seconds : Int} {nanosecond : Nat} {offset : Offset} {t : Timestamp}
    (ht : ofLocal? seconds nanosecond offset = some t) :
    t.localSeconds = seconds ∧ t.time.nanosecond = nanosecond % 1000000000 ∧ t.offset = offset := by
  obtain ⟨date, hdate, rfl⟩ := Option.map_eq_some_iff.mp ht
  refine ⟨?_, rfl, rfl⟩
  have hrange : 0 ≤ seconds % 86400 ∧ seconds % 86400 < 86400 :=
    ⟨Int.emod_nonneg _ (by decide), Int.emod_lt_of_pos _ (by decide)⟩
  have hnumber := Date.dayNumber_of_ofDayNumber? hdate
  have htime := @seconds_ofSeconds (seconds % 86400).toNat nanosecond (by omega)
  simp only [localSeconds, hnumber, secondsPerDay] at *
  omega

/-- A timestamp that is moved lies as much later as it was moved. -/
theorem addNanos?_eq_some {t moved : Timestamp} {nanos : Int}
    (hmoved : t.addNanos? nanos = some moved) :
    moved.instant = t.instant + nanos ∧ moved.offset = t.offset := by
  obtain ⟨hseconds, hnanos, hoffset⟩ := ofLocal?_eq_some hmoved
  refine ⟨?_, hoffset⟩
  simp only [instant, hseconds, hnanos, hoffset, nanosPerSecond]
  omega

/-- A timestamp that is moved by days lies that many times 86400 seconds later. -/
theorem addDays?_eq_some {t moved : Timestamp} {days : Int}
    (hmoved : t.addDays? days = some moved) :
    moved.instant = t.instant + days * 86400 * 1000000000 ∧ moved.offset = t.offset :=
  addNanos?_eq_some hmoved

end Timestamp

end Entitlement.Calendar
