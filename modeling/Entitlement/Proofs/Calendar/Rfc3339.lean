import Entitlement.Calendar.Rfc3339
import Entitlement.Proofs.Calendar.Days
import Entitlement.Proofs.Text.Digits

/-! # Timestamps survive being written and read

A timestamp with a written form is read back as it was: with the same local date and time, to the
nanosecond, and with the same offset. The zeros that writing leaves out at the end of a fraction
count nothing, and no offset but zero is written as `Z`.
-/

namespace Entitlement.Calendar

open Text

/-- The date with the numbers of a date is that date. -/
theorem Date.of?_self (date : Date) : Date.of? date.year date.month date.day = some date := by
  rw [Date.of?, dif_pos date.year_range, dif_pos date.month_range, dif_pos date.day_range]

namespace Rfc3339

/-! ## Parts of fixed width -/

theorem digits?_append {digits : List UInt8} (hdigits : ∀ b ∈ digits, Text.IsDigit b)
    (value : Nat) (rest : List UInt8) :
    digits? digits.length value (digits ++ rest) = some (digitValue value digits, rest) := by
  induction digits generalizing value with
  | nil => simp [digits?]
  | cons b digits ih =>
      rw [List.length_cons, List.cons_append, digits?,
        if_pos (isDigit_iff.mpr (hdigits b List.mem_cons_self)), digitValue_cons]
      exact ih (fun other hother => hdigits other (List.mem_cons_of_mem _ hother)) _

theorem number_padded (name : String) {width n : Nat} (hpos : 0 < width) (hn : n < 10 ^ width)
    (rest : List UInt8) : number name width (bytes (padded width n) ++ rest) = .ok (n, rest) := by
  obtain ⟨hdigits, hvalue⟩ := denotes_padded width n
  have hread := digits?_append hdigits 0 rest
  rw [length_bytes_padded hpos hn, hvalue] at hread
  rw [number, hread]

@[simp] theorem literal_self (c : Char) (rest : List UInt8) :
    literal c (c.toUInt8 :: rest) = .ok rest := by
  rw [literal, if_pos rfl]

/-! ## Fractions -/

theorem fractionValue_eq {digits : List UInt8} {exponent : Nat}
    (hlength : digits.length ≤ exponent + 1) (value : Nat) :
    fractionValue (10 ^ exponent) value digits =
      value + digitValue 0 digits * 10 ^ (exponent + 1 - digits.length) := by
  induction digits generalizing exponent value with
  | nil => simp [fractionValue]
  | cons b digits ih =>
      rw [List.length_cons] at hlength
      rw [fractionValue, digitValue_cons, digitValue_eq (0 * 10 + (b.toNat - 48)), List.length_cons]
      -- The unit shrinks tenfold with each digit, but not below one.
      cases exponent with
      | zero =>
          have hnil : digits = [] := List.length_eq_zero_iff.mp (by omega)
          subst hnil
          simp [fractionValue]
      | succ exponent =>
          have hunit : 10 ^ (exponent + 1) / 10 = 10 ^ exponent := by
            rw [Nat.pow_succ, Nat.mul_div_cancel _ (by decide)]
          have hshift : exponent + 1 = digits.length + (exponent + 1 - digits.length) := by omega
          have hrest : exponent + 1 + 1 - (digits.length + 1) = exponent + 1 - digits.length := by
            omega
          rw [hunit, ih (by omega), hrest, Nat.add_assoc]
          congr 1
          rw [Nat.add_mul, Nat.zero_mul, Nat.zero_add, Nat.mul_assoc, ← Nat.pow_add, ← hshift]

/-- A run of digits is its part before the zeros at its end, and these zeros. -/
theorem eq_append_zeros (digits : List Char) :
    ∃ count, digits =
      (digits.reverse.dropWhile (· == '0')).reverse ++ List.replicate count '0' := by
  refine ⟨(digits.reverse.takeWhile (· == '0')).length, ?_⟩
  have hzeros : digits.reverse.takeWhile (· == '0') =
      List.replicate (digits.reverse.takeWhile (· == '0')).length '0' := by
    refine List.eq_replicate_of_mem fun c hc => ?_
    simpa using List.mem_takeWhile_imp hc
  have hsplit := List.takeWhile_append_dropWhile (p := (· == '0')) (l := digits.reverse)
  have hreverse := congrArg List.reverse hsplit
  rw [List.reverse_append, List.reverse_reverse] at hreverse
  rw [← List.reverse_replicate, ← hzeros, hreverse]

/-- The zeros that are left out count nothing once their places are put back. -/
theorem digitValue_dropZeros {digits : List Char} (hdigits : ∀ c ∈ digits, c.isDigit = true) :
    ∃ kept, kept = (digits.reverse.dropWhile (· == '0')).reverse ∧
      (∀ c ∈ kept, c.isDigit = true) ∧ kept.length ≤ digits.length ∧
      digitValue 0 (kept.map Char.toUInt8) * 10 ^ (digits.length - kept.length) =
        digitValue 0 (digits.map Char.toUInt8) := by
  obtain ⟨count, hsplit⟩ := eq_append_zeros digits
  refine ⟨_, rfl, ?_, ?_, ?_⟩
  · intro c hc
    exact hdigits c (hsplit ▸ List.mem_append_left _ hc)
  · have hlength := congrArg List.length hsplit
    rw [List.length_append] at hlength
    omega
  · generalize (digits.reverse.dropWhile (· == '0')).reverse = kept at hsplit
    have hcount : digits.length - kept.length = count := by
      rw [hsplit, List.length_append, List.length_replicate, Nat.add_sub_cancel_left]
    rw [hcount, hsplit, List.map_append, List.map_replicate, digitValue_append,
      digitValue_replicate_zero]

/-- The text of a fraction above zero is a run of at most nine digits with the value of the fraction
once the zeros that were left out are put back. -/
theorem fractionText_digits {nanosecond : Nat} (hpos : 0 < nanosecond)
    (hrange : nanosecond < 10 ^ 9) :
    ∃ digits, bytes (Timestamp.fractionText nanosecond) = digits ∧ digits ≠ [] ∧
      (∀ b ∈ digits, Text.IsDigit b) ∧ digits.length ≤ 9 ∧
      digitValue 0 digits * 10 ^ (9 - digits.length) = nanosecond := by
  have hdigit : ∀ c ∈ (padded 9 nanosecond).toList, c.isDigit = true := fun _ =>
    isDigit_of_mem_padded
  have htotal := (denotes_padded 9 nanosecond).value_eq
  rw [← String.ofList_toList (s := padded 9 nanosecond),
    bytes_ofList_of_isAscii fun c hc => isAscii_of_isDigit (hdigit c hc)] at htotal
  obtain ⟨kept, hkept, hkeptDigit, hle, hvalue⟩ := digitValue_dropZeros hdigit
  rw [length_toList_padded (by decide) hrange] at hle hvalue
  rw [htotal] at hvalue
  have hne : kept ≠ [] := by
    rintro rfl
    rw [List.map_nil, digitValue_nil, Nat.zero_mul] at hvalue
    omega
  have htext : Timestamp.fractionText nanosecond = String.ofList kept := by
    simp only [Timestamp.fractionText, ← hkept]
  refine ⟨kept.map Char.toUInt8, ?_, by simpa using hne, ?_, by simpa using hle, ?_⟩
  · rw [htext, bytes_ofList_of_isAscii fun c hc => isAscii_of_isDigit (hkeptDigit c hc)]
  · intro b hb
    obtain ⟨c, hc, rfl⟩ := List.mem_map.mp hb
    exact isDigit_toUInt8 (hkeptDigit c hc)
  · rw [List.length_map]
    exact hvalue

/-- The bytes that may follow a fraction. -/
def EndsFraction (rest : List UInt8) : Prop :=
  ∀ b more, rest = b :: more → b ≠ '.'.toUInt8 ∧ isDigit b = false

theorem fraction_writeFraction {nanosecond : Nat} (hrange : nanosecond < 10 ^ 9)
    {rest : List UInt8} (hrest : EndsFraction rest) :
    fraction (bytes (writeFraction nanosecond) ++ rest) = .ok (nanosecond, rest) := by
  unfold writeFraction
  split
  next hzero =>
    subst hzero
    cases rest with
    | nil => rfl
    | cons b more =>
        have hb := (hrest b more rfl).1
        simp [fraction, bytes, hb]
  next hne =>
    obtain ⟨digits, htext, hnil, hdigits, hlength, hvalue⟩ :=
      fractionText_digits (Nat.pos_of_ne_zero hne) hrange
    have hpoint : bytes "." = ['.'.toUInt8] := rfl
    obtain ⟨htake, hdrop⟩ := span_append (fun b hb => isDigit_iff.mpr (hdigits b hb))
      fun b more h => (hrest b more h).2
    rw [bytes_append, htext, hpoint, List.append_assoc, List.singleton_append, fraction, if_pos rfl]
    simp only [htake, hdrop, if_neg hnil]
    rw [show 100000000 = 10 ^ 8 by decide, fractionValue_eq (by omega), Nat.zero_add, hvalue]

/-! ## Offsets -/

theorem offsetOf?_natAbs (o : Offset) :
    offsetOf? (o.minutes < 0) (o.minutes.natAbs / 60) (o.minutes.natAbs % 60) = some o := by
  have htotal : ((o.minutes.natAbs / 60 : Nat) : Int) * 60 + (o.minutes.natAbs % 60 : Nat) =
      o.minutes.natAbs := by omega
  have hsigned : (if (decide (o.minutes < 0)) = true then -(o.minutes.natAbs : Int)
      else o.minutes.natAbs) = o.minutes := by
    simp only [decide_eq_true_eq]
    split <;> omega
  unfold offsetOf?
  simp only [htotal, hsigned]
  rw [dif_pos o.range]

/-- A sign, two digits, a colon and two digits are read as the offset they name. -/
theorem offset_signed {isNegative : Bool} {hours minutes : Nat} {o : Offset}
    (hhours : hours ≤ 23) (hminutes : minutes ≤ 59)
    (ho : offsetOf? isNegative hours minutes = some o) (rest : List UInt8) :
    offset ((if isNegative then '-' else '+').toUInt8 ::
      (bytes (padded 2 hours) ++ ':'.toUInt8 :: (bytes (padded 2 minutes) ++ rest))) =
      .ok (o, rest) := by
  have hhoursRead := number_padded "offset hour" (by decide : 0 < 2)
    (show hours < 10 ^ 2 by omega) (':'.toUInt8 :: (bytes (padded 2 minutes) ++ rest))
  have hminutesRead := number_padded "offset minute" (by decide : 0 < 2)
    (show minutes < 10 ^ 2 by omega) rest
  have hisMinus : decide ((if isNegative then '-' else '+').toUInt8 = '-'.toUInt8) =
      isNegative := by
    cases isNegative <;> rfl
  have hletter : ¬ ((if isNegative then '-' else '+').toUInt8 = 'Z'.toUInt8 ∨
      (if isNegative then '-' else '+').toUInt8 = 'z'.toUInt8) := by
    cases isNegative <;> decide
  have hsign : ¬ ((if isNegative then '-' else '+').toUInt8 ≠ '+'.toUInt8 ∧
      (if isNegative then '-' else '+').toUInt8 ≠ '-'.toUInt8) := by
    cases isNegative <;> decide
  simp only [offset, if_neg hletter, if_neg hsign, hhoursRead, bind, Except.bind,
    if_neg (Nat.not_lt.mpr hhours), literal_self, hminutesRead, if_neg (Nat.not_lt.mpr hminutes),
    hisMinus, ho]

theorem eq_utc_of_natAbs {o : Offset} (hzero : o.minutes.natAbs = 0) : o = .utc := by
  obtain ⟨minutes, _⟩ := o
  obtain rfl : minutes = 0 := Int.natAbs_eq_zero.mp hzero
  rfl

/-- An offset other than zero is written with its sign, hours and minutes. -/
theorem bytes_writeOffset {o : Offset} (hne : o.minutes.natAbs ≠ 0) :
    bytes (writeOffset o) = (if decide (o.minutes < 0) then '-' else '+').toUInt8 ::
      (bytes (padded 2 (o.minutes.natAbs / 60)) ++
        ':'.toUInt8 :: bytes (padded 2 (o.minutes.natAbs % 60))) := by
  have hcolon : bytes ":" = [':'.toUInt8] := rfl
  have hsign : bytes (if o.minutes < 0 then "-" else "+") =
      [(if decide (o.minutes < 0) then '-' else '+').toUInt8] := by
    by_cases hneg : o.minutes < 0 <;> simp only [hneg, decide_true, decide_false] <;> rfl
  simp only [writeOffset, if_neg hne, bytes_append, hsign, hcolon, List.append_assoc,
    List.cons_append, List.nil_append]

theorem offset_writeOffset (o : Offset) (rest : List UInt8) :
    offset (bytes (writeOffset o) ++ rest) = .ok (o, rest) := by
  by_cases hzero : o.minutes.natAbs = 0
  · rw [eq_utc_of_natAbs hzero]
    rfl
  · have hrange := o.range
    rw [bytes_writeOffset hzero, List.cons_append, List.append_assoc, List.cons_append]
    exact offset_signed (by omega) (by omega) (offsetOf?_natAbs o) rest

/-- An offset starts with a letter or a sign. -/
theorem endsFraction_writeOffset (o : Offset) : EndsFraction (bytes (writeOffset o)) := by
  intro b more hb
  by_cases hzero : o.minutes.natAbs = 0
  · have hletter : bytes (writeOffset .utc) = ['Z'.toUInt8] := rfl
    rw [eq_utc_of_natAbs hzero, hletter] at hb
    rw [← (List.cons.inj hb).1]
    decide
  · rw [bytes_writeOffset hzero] at hb
    rw [← (List.cons.inj hb).1]
    cases decide (o.minutes < 0) <;> decide

/-! ## Whole timestamps -/

theorem dateOf_date {date : Date} (hyear : 0 ≤ date.year) :
    dateOf date.year.toNat date.month date.day = .ok date := by
  have hself := date.of?_self
  have hmonth := date.month_range
  rw [dateOf, if_neg (by omega), Int.toNat_of_nonneg hyear, hself]

theorem timeOf_time (time : TimeOfDay) :
    timeOf time.hour time.minute time.second time.nanosecond = .ok time := by
  rw [timeOf, dif_pos time.hour_range, dif_pos time.minute_range, dif_pos time.second_range,
    dif_pos time.nanosecond_range]

/-- The numbers of a timestamp. -/
def partsOf (t : Timestamp) : Parts where
  year := t.date.year.toNat
  month := t.date.month
  day := t.date.day
  hour := t.time.hour
  minute := t.time.minute
  second := t.time.second
  nanosecond := t.time.nanosecond
  offset := t.offset

theorem ofParts_partsOf {t : Timestamp} (hyear : 0 ≤ t.date.year) :
    ofParts (partsOf t) = .ok t := by
  have hsecond : (t.time.second == 60) = false := by
    have := t.time.second_range
    simp only [beq_eq_false_iff_ne]
    omega
  simp only [ofParts, partsOf, hsecond, Bool.false_eq_true, if_false, dateOf_date hyear,
    timeOf_time, bind, Except.bind, Bool.false_and]

theorem nonneg_year_of_format {t : Timestamp} {text : String} (htext : format? t = some text) :
    0 ≤ t.date.year := by
  unfold format? at htext
  split at htext
  next => simp at htext
  next hyear => omega

/-- The bytes of a written timestamp, part by part. -/
theorem bytes_format {t : Timestamp} {text : String} (htext : format? t = some text) :
    bytes text = bytes (padded 4 t.date.year.toNat) ++ '-'.toUInt8 ::
      (bytes (padded 2 t.date.month) ++ '-'.toUInt8 ::
        (bytes (padded 2 t.date.day) ++ 'T'.toUInt8 ::
          (bytes (padded 2 t.time.hour) ++ ':'.toUInt8 ::
            (bytes (padded 2 t.time.minute) ++ ':'.toUInt8 ::
              (bytes (padded 2 t.time.second) ++ (bytes (writeFraction t.time.nanosecond) ++
                bytes (writeOffset t.offset))))))) := by
  have hdash : bytes "-" = ['-'.toUInt8] := rfl
  have hcolon : bytes ":" = [':'.toUInt8] := rfl
  have hletter : bytes "T" = ['T'.toUInt8] := rfl
  have hyear := nonneg_year_of_format htext
  rw [format?, if_neg (by omega), Option.some.injEq] at htext
  simp only [← htext, bytes_append, hdash, hcolon, hletter, List.append_assoc, List.cons_append,
    List.nil_append]

theorem daysInMonth_le (year : Int) (month : Nat) : daysInMonth year month ≤ 31 := by
  unfold daysInMonth
  split
  · split <;> decide
  · split <;> decide

theorem parts_format {t : Timestamp} {text : String} (htext : format? t = some text) :
    parts (bytes text) = .ok (partsOf t) := by
  have hyear : t.date.year.toNat < 10 ^ 4 := by
    have := t.date.year_range.2
    simp only [lastYear] at this
    omega
  have hmonth := t.date.month_range
  have hday := Nat.le_trans t.date.day_range.2 (daysInMonth_le _ _)
  have hhour := t.time.hour_range
  have hminute := t.time.minute_range
  have hsecond := t.time.second_range
  have hfraction := fraction_writeFraction t.time.nanosecond_range
    (endsFraction_writeOffset t.offset)
  have hoffset := offset_writeOffset t.offset []
  rw [List.append_nil] at hoffset
  rw [bytes_format htext, parts]
  -- Every number fits its width, so each part is read to where the next one starts.
  simp only [number_padded "year" (by decide : 0 < 4) hyear,
    number_padded "month" (by decide : 0 < 2) (show t.date.month < 10 ^ 2 by omega),
    number_padded "day" (by decide : 0 < 2) (show t.date.day < 10 ^ 2 by omega),
    number_padded "hour" (by decide : 0 < 2) (show t.time.hour < 10 ^ 2 by omega),
    number_padded "minute" (by decide : 0 < 2) (show t.time.minute < 10 ^ 2 by omega),
    number_padded "second" (by decide : 0 < 2) (show t.time.second < 10 ^ 2 by omega),
    literal_self, separator, hfraction, hoffset, bind, Except.bind, pure, Except.pure,
    if_neg (show ¬ t.date.month = 0 by omega), ne_eq, not_true_eq_false, if_false]
  rfl

/-- A timestamp is read back from its written form. -/
theorem parse_format {t : Timestamp} {text : String} (htext : format? t = some text) :
    parse text = .ok t := by
  rw [parse, parts_format htext]
  exact ofParts_partsOf (nonneg_year_of_format htext)

/-! ## What is read can be written -/

theorem exists_format_iff {t : Timestamp} : (∃ text, format? t = some text) ↔ 0 ≤ t.date.year := by
  refine ⟨fun ⟨text, htext⟩ => nonneg_year_of_format htext, fun hyear => ?_⟩
  rw [format?, if_neg (by omega)]
  exact ⟨_, rfl⟩

theorem year_of_dateOf {year month day : Nat} {date : Date}
    (hdate : dateOf year month day = .ok date) :
    date.year = year := by
  unfold dateOf at hdate
  split at hdate
  next => cases hdate
  next =>
    split at hdate
    next hsome =>
      cases hdate
      exact (Date.of?_eq_some hsome).1
    next => cases hdate

/-- The year of a timestamp is the one that was read, which has no sign. A leap second is told by
the second before it, so it does not move the date. -/
theorem year_of_ofParts {numbers : Parts} {t : Timestamp} (ht : ofParts numbers = .ok t) :
    t.date.year = numbers.year := by
  unfold ofParts at ht
  cases hdate : dateOf numbers.year numbers.month numbers.day with
  | error e => simp [hdate, bind, Except.bind] at ht
  | ok date =>
      simp only [hdate, bind, Except.bind] at ht
      split at ht
      next => cases ht
      next =>
        split at ht
        next => cases ht
        next =>
          cases ht
          exact year_of_dateOf hdate

theorem nonneg_year_of_parse {text : String} {t : Timestamp} (ht : parse text = .ok t) :
    0 ≤ t.date.year := by
  rw [parse] at ht
  cases hparts : parts (bytes text) with
  | error e => simp [hparts, bind, Except.bind] at ht
  | ok numbers =>
      simp only [hparts, bind, Except.bind] at ht
      rw [year_of_ofParts ht]
      exact Int.natCast_nonneg _

/-- Whatever is read as a timestamp has a written form, and is read from that too. -/
theorem exists_format_of_parse {text : String} {t : Timestamp} (ht : parse text = .ok t) :
    ∃ written, format? t = some written ∧ parse written = .ok t := by
  obtain ⟨written, hwritten⟩ := exists_format_iff.mpr (nonneg_year_of_parse ht)
  exact ⟨written, hwritten, parse_format hwritten⟩

end Rfc3339

end Entitlement.Calendar
