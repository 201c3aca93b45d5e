import Entitlement.Proofs.Text.Blank
import Entitlement.Settings

/-! # Where the license key comes from

A variable and a file may each hold a license key: a text that is more than blanks. A variable with
such a text is preferred to the file, and bytes that are no text count for nothing. A variable with
a blank text holds no key either, but it still keeps the file from being looked at.
-/

namespace Entitlement

open Text

variable {source inVariable inFile : Option (List UInt8)} {key text : String}

/-- The text of a source is a license key with nothing but blanks around it. -/
def HoldsKey (source : Option (List UInt8)) (key : String) : Prop :=
  ∃ text, source = some (bytes text) ∧ ¬ IsBlankText text ∧ trim text = key

/-- A source is there, and it is a text of blanks only. -/
def HoldsBlank (source : Option (List UInt8)) : Prop :=
  ∃ text, source = some (bytes text) ∧ IsBlankText text

/-- A source is there, and it is text. -/
def HoldsText (source : Option (List UInt8)) : Prop :=
  ∃ text, source = some (bytes text)

/-- A key that the variable holds, or that the file holds where the variable holds none. -/
def IsFirstKey (inVariable inFile : Option (List UInt8)) (key : String) : Prop :=
  HoldsKey inVariable key ∨ (∀ other, ¬ HoldsKey inVariable other) ∧ HoldsKey inFile key

theorem bind_ofBytes?_eq_some_iff :
    source.bind ofBytes? = some text ↔ source = some (bytes text) := by
  simp only [Option.bind_eq_some_iff, ofBytes?_eq_some_iff, exists_eq_right]

theorem HoldsKey.holdsText (hkey : HoldsKey source key) : HoldsText source := by
  obtain ⟨text, hsource, -⟩ := hkey
  exact ⟨text, hsource⟩

theorem HoldsBlank.not_holdsKey (hblank : HoldsBlank source) : ¬ HoldsKey source key := by
  rintro ⟨text, hsource, htext, -⟩
  obtain ⟨text', hsource', htext'⟩ := hblank
  have hsame := bind_ofBytes?_eq_some_iff.mpr hsource
  rw [bind_ofBytes?_eq_some_iff.mpr hsource'] at hsame
  exact htext (Option.some.inj hsame ▸ htext')

theorem HoldsBlank.holdsText (hblank : HoldsBlank source) : HoldsText source := by
  obtain ⟨text, hsource, -⟩ := hblank
  exact ⟨text, hsource⟩

/-- A text is blank or holds a key. -/
theorem HoldsText.cases (htext : HoldsText source) :
    HoldsBlank source ∨ ∃ key, HoldsKey source key := by
  obtain ⟨text, hsource⟩ := htext
  by_cases hblank : IsBlankText text
  · exact .inl ⟨text, hsource, hblank⟩
  · exact .inr ⟨trim text, text, hsource, hblank, rfl⟩

theorem not_holdsText_iff : ¬ HoldsText source ↔ source.bind ofBytes? = none := by
  simp only [HoldsText, ← bind_ofBytes?_eq_some_iff, Option.eq_none_iff_forall_ne_some,
    not_exists, Ne]

theorem keyOfText_eq_some_iff :
    (if trim text = "" then none else some (trim text)) = some key ↔
      ¬ IsBlankText text ∧ trim text = key := by
  rw [← trim_eq_empty_iff]
  split
  next hblank => simp [hblank]
  next htext => simp [htext]

/-- The key is that of the variable, or of the file where the variable is no text. -/
theorem keyOfSources_eq_some_iff :
    keyOfSources inVariable inFile = some key ↔
      HoldsKey inVariable key ∨ ¬ HoldsText inVariable ∧ HoldsKey inFile key := by
  change (((inVariable.bind ofBytes?).or (inFile.bind ofBytes?)).bind fun text =>
    if trim text = "" then none else some (trim text)) = some key ↔ _
  rw [Option.bind_eq_some_iff]
  simp only [Option.or_eq_some_iff, bind_ofBytes?_eq_some_iff, keyOfText_eq_some_iff,
    not_holdsText_iff]
  constructor
  · rintro ⟨text, hvariable | ⟨hnone, hfile⟩, hkey⟩
    · exact .inl ⟨text, hvariable, hkey⟩
    · exact .inr ⟨hnone, text, hfile, hkey⟩
  · rintro (⟨text, hvariable, hkey⟩ | ⟨hnone, text, hfile, hkey⟩)
    · exact ⟨text, .inl hvariable, hkey⟩
    · exact ⟨text, .inr ⟨hnone, hfile⟩, hkey⟩

/-- No key is found if the variable is blank, or if it is no text and the file holds no key. -/
theorem keyOfSources_eq_none_iff :
    keyOfSources inVariable inFile = none ↔
      HoldsBlank inVariable ∨ ¬ HoldsText inVariable ∧ ∀ key, ¬ HoldsKey inFile key := by
  simp only [Option.eq_none_iff_forall_ne_some, Ne, keyOfSources_eq_some_iff, not_or, not_and]
  constructor
  · intro hnone
    by_cases htext : HoldsText inVariable
    · rcases htext.cases with hblank | ⟨key, hkey⟩
      · exact .inl hblank
      · exact absurd hkey (hnone key).1
    · exact .inr ⟨htext, fun key => (hnone key).2 htext⟩
  · rintro (hblank | ⟨hnone, hfile⟩) key
    · exact ⟨hblank.not_holdsKey, fun hnone => absurd hblank.holdsText hnone⟩
    · exact ⟨fun hkey => hnone hkey.holdsText, fun _ => hfile key⟩

/-- The key that is found is the first one, unless a blank variable hides a key in the file. -/
theorem isFirstKey_iff :
    (∀ key, keyOfSources inVariable inFile = some key ↔ IsFirstKey inVariable inFile key) ↔
      ¬ (HoldsBlank inVariable ∧ ∃ key, HoldsKey inFile key) := by
  simp only [keyOfSources_eq_some_iff, IsFirstKey]
  constructor
  · rintro hfirst ⟨hblank, key, hfile⟩
    rcases (hfirst key).mpr (.inr ⟨fun _ => hblank.not_holdsKey, hfile⟩) with hkey | ⟨hnone, -⟩
    · exact hblank.not_holdsKey hkey
    · exact hnone hblank.holdsText
  · intro hshown key
    refine or_congr_right ⟨?_, ?_⟩
    · rintro ⟨hnone, hfile⟩
      exact ⟨fun _ hkey => hnone hkey.holdsText, hfile⟩
    · rintro ⟨hnone, hfile⟩
      refine ⟨fun htext => ?_, hfile⟩
      rcases htext.cases with hblank | ⟨other, hkey⟩
      · exact hshown ⟨hblank, key, hfile⟩
      · exact hnone other hkey

/-! ## The result -/

/-- The license key that is found is the text of the variable that the settings name, or the text of
the file where there is no such variable or it is not text; blanks around it are left out, and where
nothing else is in that text there is no key. This is the key of the first source that holds one,
except where the variable is blank and the file holds a key: no key is found there. -/
theorem license_key_sources (settings : Settings)
    (environment files : String → Option (List UInt8)) :
    let inVariable :=
      if isVariableName settings.keyVariable then environment settings.keyVariable else none
    let inFile := files settings.keyPath
    let found := settings.licenseKey environment files
    (∀ key, found = some key ↔
      HoldsKey inVariable key ∨ ¬ HoldsText inVariable ∧ HoldsKey inFile key) ∧
    (found = none ↔
      HoldsBlank inVariable ∨ ¬ HoldsText inVariable ∧ ∀ key, ¬ HoldsKey inFile key) ∧
    ((∀ key, found = some key ↔ IsFirstKey inVariable inFile key) ↔
      ¬ (HoldsBlank inVariable ∧ ∃ key, HoldsKey inFile key)) :=
  ⟨fun _ => keyOfSources_eq_some_iff, keyOfSources_eq_none_iff, isFirstKey_iff⟩

/-- Three blanks in the variable hide the key in the file, which is the first one. -/
theorem blank_variable_hides_file :
    ∃ settings environment files, Settings.ofLookup (fun _ => none) = .ok settings ∧
      environment settings.keyVariable = some (bytes "   ") ∧
      files settings.keyPath = some (bytes "from-file") ∧
      IsFirstKey (environment settings.keyVariable) (files settings.keyPath) "from-file" ∧
      settings.licenseKey environment files = none := by
  refine ⟨⟨"0.0.0.0:3000", "DDUI_LICENSE", "/run/secrets/ddui_license", 3600, false⟩,
    fun _ => some (bytes "   "), fun _ => some (bytes "from-file"), ?_, rfl, rfl, ?_, ?_⟩
  · decide +kernel
  · refine .inr ⟨fun other => HoldsBlank.not_holdsKey ⟨"   ", rfl, by decide⟩, "from-file", rfl,
      by decide, by decide⟩
  · exact keyOfSources_eq_none_iff.mpr (.inl ⟨"   ", rfl, by decide⟩)

end Entitlement
