import Entitlement.Proofs.Steps
import Entitlement.Proofs.Text.Integer
import Entitlement.Service.Startup

/-! # What an interval is

An interval is a whole number of seconds. It is spelled by a number that is written in ASCII digits
and by a unit behind it, which may be left out. Every spelled interval is read if its number is not
zero and fits in 64 bits. An interval that would be too long is cut to the longest one instead of
wrapping around, so it is never shorter than its number of seconds, and of two intervals in one unit
the longer one is never read as the shorter one.
-/

namespace Entitlement

open Schedule Text

/-- The units of intervals with the seconds in each; a number without a unit counts seconds. -/
def intervalUnits : List (String × Nat) :=
  [("", 1), ("s", 1), ("m", 60), ("h", 3600), ("d", 86400)]

/-- A text spells a number of units of so many seconds. Without the blanks around it, it is made up
of the digits of the number, maybe of blanks, and of the unit. -/
def SpellsInterval (text : String) (n scale : Nat) : Prop :=
  ∃ digits blanks unit, trim text = String.ofList digits ++ blanks ++ unit ∧ digits ≠ [] ∧
    (∀ c ∈ digits, c.isDigit = true) ∧ Nat.ofDigitChars 10 digits 0 = n ∧ IsBlankText blanks ∧
    (unit, scale) ∈ intervalUnits

variable {text text' unit : String} {n n' scale scale' : Nat} {seconds seconds' : UInt64}

/-! ## Units -/

theorem intervalUnit?_eq_some_iff :
    intervalUnit? unit = some scale ↔ (unit, scale) ∈ intervalUnits := by
  simp only [intervalUnits, List.mem_cons, List.not_mem_nil, or_false, Prod.mk.injEq]
  constructor
  · intro hunit
    unfold intervalUnit? at hunit
    split at hunit
    next hsecond =>
      cases hunit
      rcases hsecond with rfl | rfl
      · exact .inl ⟨rfl, rfl⟩
      · exact .inr (.inl ⟨rfl, rfl⟩)
    next =>
      split at hunit
      next hminute =>
        cases hunit
        exact .inr (.inr (.inl ⟨hminute, rfl⟩))
      next =>
        split at hunit
        next hhour =>
          cases hunit
          exact .inr (.inr (.inr (.inl ⟨hhour, rfl⟩)))
        next =>
          obtain ⟨hday, hscale⟩ := Option.ite_none_right_eq_some.mp hunit
          cases hscale
          exact .inr (.inr (.inr (.inr ⟨hday, rfl⟩)))
  · rintro (⟨rfl, rfl⟩ | ⟨rfl, rfl⟩ | ⟨rfl, rfl⟩ | ⟨rfl, rfl⟩ | ⟨rfl, rfl⟩) <;> decide

/-- Units are neither cut by trimming nor taken for digits. -/
theorem isBlank_isDigit_of_unit (hunit : (unit, scale) ∈ intervalUnits) :
    ∀ c ∈ unit.toList, isBlank c = false ∧ c.isDigit = false := by
  have hall : (intervalUnits.all fun entry =>
      entry.1.toList.all fun c => !isBlank c && !c.isDigit) = true := by decide
  intro c hc
  have hletter := List.all_eq_true.mp (List.all_eq_true.mp hall _ hunit) c hc
  rwa [Bool.and_eq_true, Bool.not_eq_true', Bool.not_eq_true'] at hletter

theorem scale_pos_of_unit (hunit : (unit, scale) ∈ intervalUnits) : 0 < scale := by
  have hall : ∀ entry ∈ intervalUnits, 0 < entry.2 := by decide
  exact hall _ hunit

/-! ## Where a text is cut -/

theorem not_isDigit_of_isBlank {c : Char} (hc : isBlank c = true) : c.isDigit = false := by
  by_contra hdigit
  rw [Bool.not_eq_false] at hdigit
  rw [isBlank_of_isDigit hdigit] at hc
  exact absurd hc (by decide)

/-- A text spells an interval exactly if its digits are a number and what stands behind them is a
unit. -/
theorem spellsInterval_iff :
    SpellsInterval text n scale ↔
      decimal? ((trim text).toList.takeWhile Char.isDigit) = some n ∧
        intervalUnit? (trim (String.ofList ((trim text).toList.dropWhile Char.isDigit))) =
          some scale := by
  rw [decimal?_eq_some_iff, intervalUnit?_eq_some_iff]
  constructor
  · rintro ⟨digits, blanks, unit, htext, hne, hdigits, hvalue, hblanks, hunit⟩
    -- Neither a blank nor the first letter of a unit continues the number.
    have hrest : ∀ c more, blanks.toList ++ unit.toList = c :: more → c.isDigit = false := by
      intro c more hcons
      have hmem : c ∈ blanks.toList ++ unit.toList := hcons ▸ List.mem_cons_self
      rcases List.mem_append.mp hmem with hblank | hletter
      · exact not_isDigit_of_isBlank (hblanks c hblank)
      · exact (isBlank_isDigit_of_unit hunit c hletter).2
    obtain ⟨htake, hdrop⟩ := span_append hdigits hrest
    rw [htext, String.toList_append, String.toList_append, String.toList_ofList, List.append_assoc,
      htake, hdrop, ← String.toList_append, String.ofList_toList, trim_append_left hblanks,
      trim_eq_self fun c hc => (isBlank_isDigit_of_unit hunit c hc).1]
    exact ⟨⟨hne, hdigits, hvalue⟩, hunit⟩
  · rintro ⟨⟨hne, hdigits, hvalue⟩, hunit⟩
    obtain ⟨blanks, after, hblanks, hafter, hrest⟩ :=
      exists_trim (String.ofList ((trim text).toList.dropWhile Char.isDigit))
    have htext : trim text = String.ofList ((trim text).toList.takeWhile Char.isDigit) ++
        String.ofList ((trim text).toList.dropWhile Char.isDigit) := by
      rw [← String.ofList_append, List.takeWhile_append_dropWhile, String.ofList_toList]
    -- Nothing stands behind the unit, since the text has been trimmed.
    rw [hrest, ← String.append_assoc] at htext
    have hend := trim_trim text
    rw [htext] at hend
    rw [eq_empty_of_trim_append hafter hend, String.append_empty, ← String.append_assoc] at htext
    exact ⟨_, blanks, _, htext, hne, hdigits, hvalue, hblanks, hunit⟩

/-- A text spells no more than one interval. -/
theorem SpellsInterval.unique (hspells : SpellsInterval text n scale)
    (hspells' : SpellsInterval text n' scale') : n = n' ∧ scale = scale' := by
  obtain ⟨hnumber, hunit⟩ := spellsInterval_iff.mp hspells
  obtain ⟨hnumber', hunit'⟩ := spellsInterval_iff.mp hspells'
  exact ⟨Option.some.inj (hnumber.symm.trans hnumber'), Option.some.inj (hunit.symm.trans hunit')⟩

/-! ## Reading -/

theorem toNat_ofNat_min (n : Nat) :
    (UInt64.ofNat (min n longestInterval)).toNat = min n (2 ^ 64 - 1) := by
  have hlongest : longestInterval = 2 ^ 64 - 1 := rfl
  rw [hlongest]
  exact UInt64.toNat_ofNat_of_lt' (Nat.lt_of_le_of_lt (Nat.min_le_right _ _) (by decide))

/-- A spelled interval is read if its number is not zero and fits, and it is cut to the longest
one. -/
theorem intervalOfText_eq_ok_iff :
    intervalOfText text = .ok seconds ↔
      ∃ n scale, SpellsInterval text n scale ∧ 1 ≤ n ∧ n ≤ 2 ^ 64 - 1 ∧
        seconds.toNat = min (n * scale) (2 ^ 64 - 1) := by
  have hlongest : longestInterval = 2 ^ 64 - 1 := rfl
  simp only [spellsInterval_iff]
  unfold intervalOfText
  dsimp only
  constructor
  · intro hread
    split at hread
    next => cases hread
    next n hnumber =>
      split at hread
      next => cases hread
      next hfits =>
        split at hread
        next => cases hread
        next scale hunit =>
          split at hread
          next => cases hread
          next hpos =>
            cases hread
            exact ⟨n, scale, ⟨hnumber, hunit⟩, by omega, by omega, toNat_ofNat_min _⟩
  · rintro ⟨n, scale, ⟨hnumber, hunit⟩, hpos, hfits, hseconds⟩
    rw [hnumber, hunit]
    dsimp only
    rw [if_neg (by omega), if_neg (by omega), hlongest, ← hseconds, UInt64.ofNat_toNat]

theorem SpellsInterval.exists_seconds (hspells : SpellsInterval text n scale) (hpos : 1 ≤ n)
    (hfits : n ≤ 2 ^ 64 - 1) : ∃ seconds, intervalOfText text = .ok seconds :=
  ⟨_, intervalOfText_eq_ok_iff.mpr ⟨n, scale, hspells, hpos, hfits, toNat_ofNat_min _⟩⟩

/-- What a spelled interval is read as. -/
theorem SpellsInterval.toNat_seconds (hspells : SpellsInterval text n scale)
    (hread : intervalOfText text = .ok seconds) : seconds.toNat = min (n * scale) (2 ^ 64 - 1) := by
  obtain ⟨n', scale', hspells', -, -, hseconds⟩ := intervalOfText_eq_ok_iff.mp hread
  obtain ⟨rfl, rfl⟩ := hspells.unique hspells'
  exact hseconds

/-- An interval is at least as long as its number of seconds. -/
theorem SpellsInterval.le_seconds (hspells : SpellsInterval text n scale)
    (hread : intervalOfText text = .ok seconds) : n ≤ seconds.toNat := by
  obtain ⟨n', scale', hspells', -, hfits, hseconds⟩ := intervalOfText_eq_ok_iff.mp hread
  obtain ⟨rfl, rfl⟩ := hspells.unique hspells'
  obtain ⟨-, -, unit, -, -, -, -, -, hunit⟩ := hspells
  rw [hseconds]
  exact Nat.le_min.mpr ⟨Nat.le_mul_of_pos_right n (scale_pos_of_unit hunit), hfits⟩

/-- No interval is zero. -/
theorem one_le_of_intervalOfText (hread : intervalOfText text = .ok seconds) :
    1 ≤ seconds.toNat := by
  obtain ⟨n, scale, hspells, hpos, -, -⟩ := intervalOfText_eq_ok_iff.mp hread
  exact Nat.le_trans hpos (hspells.le_seconds hread)

/-- An interval of whole seconds is not raised when a task starts with it. -/
theorem interval_start (hpos : 1 ≤ seconds.toNat) (name key : String) (time : Nat) :
    (Task.start name key (Service.millis * seconds.toNat) time).interval =
      Service.millis * seconds.toNat := by
  have hmillis : Service.millis = shortestInterval := rfl
  rw [Task.start, hmillis]
  exact Nat.max_eq_right (Nat.le_mul_of_pos_right _ hpos)

/-! ## The setting -/

section Setting

variable {lookup : String → Option String} {settings : Settings} {cause : IntervalError}

/-- Settings are refused for the interval exactly if it cannot be read, and for the same reason. -/
theorem ofLookup_eq_interval_iff :
    Settings.ofLookup lookup = .error (.interval cause) ↔
      intervalOfText ((lookup Settings.intervalName).getD "1h") = .error cause := by
  unfold Settings.ofLookup
  dsimp only
  rw [bind_eq_error_iff, mapError_eq_error_iff]
  constructor
  · rintro (⟨cause', hcause, hsame⟩ | ⟨seconds, -, hnext⟩)
    · cases hsame
      exact hcause
    · -- What else can be wrong is the truth value.
      rcases bind_eq_error_iff.mp hnext with htruth | ⟨isLicenseRequired, -, hlast⟩
      · obtain ⟨word, -, hother⟩ := mapError_eq_error_iff.mp htruth
        cases hother
      · cases hlast
  · intro hcause
    exact .inl ⟨cause, hcause, rfl⟩

theorem refreshSeconds_of_ofLookup (hsettings : Settings.ofLookup lookup = .ok settings) :
    intervalOfText ((lookup Settings.intervalName).getD "1h") = .ok settings.refreshSeconds := by
  unfold Settings.ofLookup at hsettings
  obtain ⟨seconds, hseconds, hnext⟩ := bind_eq_ok_iff.mp hsettings
  obtain ⟨isLicenseRequired, -, hlast⟩ := bind_eq_ok_iff.mp hnext
  cases hlast
  exact mapError_eq_ok_iff.mp hseconds

end Setting

/-! ## The result -/

/-- A text is read as an interval exactly if it spells a number of seconds, minutes, hours or days,
and that number is not zero and fits in 64 bits. The interval is then as long as it should be, or as
long as the longest one if that is shorter. So it is never shorter than its number of seconds and
never has to be raised for a task, and in one unit a greater number never makes it shorter. Settings
are refused for the interval exactly if its text cannot be read, whatever else they are read
from. -/
theorem interval_grammar :
    (∀ text, (∃ seconds, intervalOfText text = .ok seconds) ↔
      ∃ n scale, SpellsInterval text n scale ∧ 1 ≤ n ∧ n ≤ 2 ^ 64 - 1) ∧
    (∀ text n scale seconds, SpellsInterval text n scale → intervalOfText text = .ok seconds →
      seconds.toNat = min (n * scale) (2 ^ 64 - 1) ∧ 1 ≤ seconds.toNat ∧ n ≤ seconds.toNat ∧
        ∀ name key time, (Task.start name key (Service.millis * seconds.toNat) time).interval =
          Service.millis * seconds.toNat) ∧
    (∀ text text' n n' scale seconds seconds', SpellsInterval text n scale →
      SpellsInterval text' n' scale → n ≤ n' → intervalOfText text = .ok seconds →
        intervalOfText text' = .ok seconds' → seconds ≤ seconds') ∧
    ∀ lookup : String → Option String,
      (∀ cause, Settings.ofLookup lookup = .error (.interval cause) ↔
        intervalOfText ((lookup Settings.intervalName).getD "1h") = .error cause) ∧
      ∀ settings, Settings.ofLookup lookup = .ok settings →
        intervalOfText ((lookup Settings.intervalName).getD "1h") =
          .ok settings.refreshSeconds := by
  refine ⟨fun text => ⟨?_, ?_⟩, ?_, ?_, ?_⟩
  · rintro ⟨seconds, hread⟩
    obtain ⟨n, scale, hspells, hpos, hfits, -⟩ := intervalOfText_eq_ok_iff.mp hread
    exact ⟨n, scale, hspells, hpos, hfits⟩
  · rintro ⟨n, scale, hspells, hpos, hfits⟩
    exact hspells.exists_seconds hpos hfits
  · intro text n scale seconds hspells hread
    exact ⟨hspells.toNat_seconds hread, one_le_of_intervalOfText hread, hspells.le_seconds hread,
      interval_start (one_le_of_intervalOfText hread)⟩
  · intro text text' n n' scale seconds seconds' hspells hspells' hle hread hread'
    rw [UInt64.le_iff_toNat_le, hspells.toNat_seconds hread, hspells'.toNat_seconds hread']
    exact min_le_min_right _ (Nat.mul_le_mul_right scale hle)
  · exact fun lookup =>
      ⟨fun cause => ofLookup_eq_interval_iff, fun settings => refreshSeconds_of_ofLookup⟩

/-- So many hours, with blanks and a zero that do not count, are cut to the longest interval, and
the hour that is the default is not longer. A zero is the reason why settings are refused of which
nothing else can be read either. -/
theorem interval_grammar_hours :
    intervalOfText "\u200305124095576030432\u3000h\n" = .ok 18446744073709551615 ∧
      intervalOfText "1h" = .ok 3600 ∧ (3600 : UInt64) ≤ 18446744073709551615 ∧
      (∀ name key time, (Task.start name key (Service.millis * 3600) time).interval =
        Service.millis * 3600) ∧
      Settings.ofLookup (fun _ => some "0s") = .error (.interval .zero) := by
  obtain ⟨haccepts, hlength, hmono, hsettings⟩ := interval_grammar
  have hspells : SpellsInterval "\u200305124095576030432\u3000h\n" 5124095576030432 3600 :=
    ⟨"05124095576030432".toList, "\u3000", "h", by decide +kernel, by decide,
      List.all_eq_true.mp (by decide), by decide, List.all_eq_true.mp (by decide), by decide⟩
  have hhour : SpellsInterval "1h" 1 3600 :=
    ⟨['1'], "", "h", by decide +kernel, by decide, List.forall_mem_singleton.mpr (by decide),
      by decide, isBlankText_empty, by decide⟩
  have hdefault : Settings.ofLookup (fun _ => none) =
      .ok ⟨"0.0.0.0:3000", "DDUI_LICENSE", "/run/secrets/ddui_license", 3600, false⟩ := by
    decide +kernel
  have hread : intervalOfText "1h" = .ok 3600 := (hsettings fun _ => none).2 _ hdefault
  obtain ⟨-, -, -, hstart⟩ := hlength _ _ _ _ hhour hread
  obtain ⟨seconds, hlong⟩ := (haccepts _).mpr ⟨_, _, hspells, by decide, by decide⟩
  obtain ⟨hseconds, -⟩ := hlength _ _ _ _ hspells hlong
  have hlongest : seconds = 18446744073709551615 := by
    apply UInt64.toNat_inj.mp
    rw [hseconds]
    decide
  rw [hlongest] at hlong
  have hle := hmono _ _ _ _ _ _ _ hhour hspells (by decide) hread hlong
  exact ⟨hlong, hread, hle, hstart, ((hsettings fun _ => some "0s").1 .zero).mpr (by decide)⟩

end Entitlement
