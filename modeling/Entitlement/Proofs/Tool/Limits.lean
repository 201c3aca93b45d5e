import Entitlement.Proofs.Key.Document
import Entitlement.Proofs.Plan.Limits
import Entitlement.Proofs.Text.Integer
import Entitlement.Proofs.Tool.Sign

/-! # Limits that are ordered

Limits are ordered with texts, and every limit that the tool reads from texts is one that a license
can carry. The other way round, the limits of a license can be ordered: written back as texts they
are read to the same limits. In between only the last text for a name counts, so texts for different
names may come in any order.
-/

namespace Entitlement.Tool

open Grant Key Plan

/-! ## The order of texts -/

/-- Two texts give no values to one name. -/
def NamesApart (text other : String) : Prop :=
  ∀ name value value', Names text name value → ¬ Names other name value'

theorem NamesApart.symm {text other : String} (hapart : NamesApart text other) :
    NamesApart other text :=
  fun name value value' hother htext => hapart name value' value htext hother

/-- Texts in another order, in which those that give values to one name keep theirs. -/
inductive Reordered : List String → List String → Prop where
  | refl (texts : List String) : Reordered texts texts
  | swap {text other : String} (hapart : NamesApart text other) (more : List String) :
      Reordered (text :: other :: more) (other :: text :: more)
  | cons (text : String) {texts texts' : List String} (hmore : Reordered texts texts') :
      Reordered (text :: texts) (text :: texts')
  | trans {texts texts' texts'' : List String} (hfirst : Reordered texts texts')
      (hsecond : Reordered texts' texts'') : Reordered texts texts''

variable {text name value : String} {texts texts' : List String} {limits : Limits}

theorem Reordered.perm (hreordered : Reordered texts texts') : texts.Perm texts' := by
  induction hreordered with
  | refl texts => exact List.Perm.refl texts
  | swap _ more => exact List.Perm.swap _ _ more
  | cons text _ ih => exact ih.cons text
  | trans _ _ ih ih' => exact ih.trans ih'

/-- What is given last does not depend on where other names stand. -/
theorem Reordered.lastNamed_iff (hreordered : Reordered texts texts') :
    LastNamed texts name value ↔ LastNamed texts' name value := by
  induction hreordered with
  | refl texts => rfl
  | @swap text other hapart more =>
      simp only [lastNamed_cons_iff, List.forall_mem_cons]
      have hboth : ∀ value', Names text name value → ¬ Names other name value' :=
        fun value' htext => hapart name value value' htext
      have hboth' : ∀ value', Names other name value → ¬ Names text name value' :=
        fun value' hother htext => hapart name value' value htext hother
      tauto
  | @cons text texts texts' hmore ih =>
      rw [lastNamed_cons_iff, lastNamed_cons_iff, ih]
      simp only [hmore.perm.mem_iff]
  | trans _ _ ih ih' => exact ih.trans ih'

/-- Where no name is given two values, every value is the last one. -/
theorem lastNamed_iff_of_pairwise (hapart : texts.Pairwise NamesApart) :
    LastNamed texts name value ↔ ∃ text ∈ texts, Names text name value := by
  induction texts with
  | nil => exact iff_of_false (by rintro ⟨⟩) (by simp)
  | cons text texts ih =>
      obtain ⟨hfirst, hmore⟩ := List.pairwise_cons.mp hapart
      rw [lastNamed_cons_iff, ih hmore, List.exists_mem_cons_iff, or_comm]
      refine or_congr_left (and_iff_right_of_imp fun htext other hother value' => ?_)
      exact hfirst other hother name value value' htext

/-! ## Texts that can be read -/

/-- A text has an equals sign, and what stands before the first one is not blank. -/
def IsPair (text : String) : Prop :=
  ∃ before after, text = before ++ "=" ++ after ∧ '=' ∉ before.toList ∧ ¬ Text.IsBlankText before

theorem exists_pairOf_iff {flag : String} :
    (∃ pair, pairOf flag text = .ok pair) ↔ IsPair text := by
  simp only [Prod.exists, pairOf_eq_ok_iff, Names, IsPair, ← Text.trim_eq_empty_iff]
  constructor
  · rintro ⟨name, value, ⟨before, after, htext, hbefore, rfl, -⟩, hne⟩
    exact ⟨before, after, htext, hbefore, hne⟩
  · rintro ⟨before, after, htext, hbefore, hne⟩
    exact ⟨_, _, ⟨before, after, htext, hbefore, rfl, rfl⟩, hne⟩

theorem exists_pairsOf_iff {flag : String} :
    (∃ table, pairsOf flag texts = .ok table) ↔ ∀ text ∈ texts, IsPair text := by
  simp only [← @exists_pairOf_iff _ flag, ← exists_mapM_iff, pairsOf, bind_eq_ok_iff]
  constructor
  · rintro ⟨_, pairs, hpairs, -⟩
    exact ⟨pairs, hpairs⟩
  · rintro ⟨pairs, hpairs⟩
    exact ⟨_, pairs, hpairs, rfl⟩

/-! ## Ceilings that can be read -/

/-- A ceiling is read from a text that spells it, if a license can carry it. -/
theorem ceilingOf_eq_ok_iff {ceiling : UInt64} :
    ceilingOf name text = .ok ceiling ↔
      Text.SpellsNatural text ceiling.toNat ∧ ceiling.toNat ≤ 2 ^ 53 - 1 := by
  have hmax : Limits.maxEncodable.toNat = 2 ^ 53 - 1 := rfl
  have hword : largestWord = 2 ^ 64 - 1 := rfl
  constructor
  · intro hceiling
    obtain ⟨n, hn, hceiling⟩ := bind_eq_ok_iff.mp hceiling
    rw [mapError_eq_ok_iff, Text.naturalOfText_eq_ok_iff] at hn
    split at hceiling
    next => cases hceiling
    next hle =>
      obtain rfl := Except.ok.inj hceiling
      rw [UInt64.toNat_ofNat_of_lt' (by rw [UInt64.size]; omega)]
      exact ⟨hn.1, by omega⟩
  · rintro ⟨hspells, hle⟩
    have hn := Text.naturalOfText_eq_ok_iff.mpr ⟨hspells, show ceiling.toNat ≤ largestWord by omega⟩
    refine bind_eq_ok_iff.mpr ⟨ceiling.toNat, mapError_eq_ok_iff.mpr hn, ?_⟩
    rw [if_neg (by omega)]
    exact congrArg Except.ok UInt64.ofNat_toNat

theorem exists_ceilingOf_iff :
    (∃ ceiling, ceilingOf name text = .ok ceiling) ↔
      ∃ n ≤ 2 ^ 53 - 1, Text.SpellsNatural text n := by
  simp only [ceilingOf_eq_ok_iff]
  constructor
  · rintro ⟨ceiling, hspells, hle⟩
    exact ⟨_, hle, hspells⟩
  · rintro ⟨n, hle, hspells⟩
    have hceiling : (UInt64.ofNat n).toNat = n :=
      UInt64.toNat_ofNat_of_lt' (by rw [UInt64.size]; omega)
    exact ⟨UInt64.ofNat n, by rwa [hceiling], by rwa [hceiling]⟩

theorem exists_foldlM_ceilings_iff {pairs : List (String × String)} {start : Limits} :
    (∃ limits, pairs.foldlM (fun (limits : Limits) (pair : String × String) =>
      return limits.set pair.1 (← ceilingOf pair.1 pair.2)) start = .ok limits) ↔
      ∀ pair ∈ pairs, ∃ ceiling, ceilingOf pair.1 pair.2 = .ok ceiling := by
  induction pairs generalizing start with
  | nil => simp [pure, Except.pure]
  | cons pair pairs ih =>
      rw [List.forall_mem_cons]
      simp only [List.foldlM_cons, bind_eq_ok_iff]
      constructor
      · rintro ⟨limits, next, ⟨ceiling, hceiling, -⟩, hlimits⟩
        exact ⟨⟨ceiling, hceiling⟩, ih.mp ⟨limits, hlimits⟩⟩
      · rintro ⟨⟨ceiling, hceiling⟩, hmore⟩
        obtain ⟨limits, hlimits⟩ := (@ih (start.set pair.1 ceiling)).mpr hmore
        exact ⟨limits, _, ⟨ceiling, hceiling, rfl⟩, hlimits⟩

/-! ## Limits that can be read -/

/-- Limits are read if every text can be taken apart and the last text for each name spells a
ceiling that a license can carry. -/
theorem exists_limitsOf_iff :
    (∃ limits, limitsOf texts = .ok limits) ↔
      (∀ text ∈ texts, IsPair text) ∧
        ∀ name value, LastNamed texts name value →
          ∃ n ≤ 2 ^ 53 - 1, Text.SpellsNatural value n := by
  have hsteps : (∃ limits, limitsOf texts = .ok limits) ↔
      ∃ table, pairsOf "--limit" texts = .ok table ∧
        ∀ pair ∈ table.toList, ∃ ceiling, ceilingOf pair.1 pair.2 = .ok ceiling := by
    simp only [← @exists_foldlM_ceilings_iff _ Limits.empty, limitsOf, bind_eq_ok_iff]
    constructor
    · rintro ⟨limits, table, htable, hlimits⟩
      exact ⟨table, htable, limits, hlimits⟩
    · rintro ⟨table, htable, limits, hlimits⟩
      exact ⟨limits, table, htable, hlimits⟩
  rw [hsteps, ← @exists_pairsOf_iff _ "--limit", ← exists_and_right]
  refine exists_congr fun table => and_congr_right fun htable => ?_
  simp only [exists_ceilingOf_iff, Prod.forall, ← Table.get?_eq_some_iff, get?_pairsOf htable]

theorem get?_limitsOf_iff (hlimits : limitsOf texts = .ok limits) (name : String)
    (ceiling : UInt64) :
    limits.get? name = some ceiling ↔
      ∃ value, LastNamed texts name value ∧ Text.SpellsNatural value ceiling.toNat := by
  rw [get?_limitsOf hlimits]
  refine exists_congr fun value => and_congr_right fun _ => ?_
  rw [Text.naturalOfText_eq_ok_iff]
  exact and_iff_left (Nat.le_of_lt_succ ceiling.toNat_lt_size)

/-- Limits are read from texts exactly if the texts ask for them. -/
theorem limitsOf_eq_ok_iff :
    limitsOf texts = .ok limits ↔
      (∃ limits, limitsOf texts = .ok limits) ∧
        ∀ name ceiling, limits.get? name = some ceiling ↔
          ∃ value, LastNamed texts name value ∧ Text.SpellsNatural value ceiling.toNat := by
  refine ⟨fun hlimits => ⟨⟨limits, hlimits⟩, get?_limitsOf_iff hlimits⟩, ?_⟩
  rintro ⟨⟨limits', hlimits'⟩, hsame⟩
  rw [hlimits', Limits.eq_of_get? fun name ceiling =>
    (get?_limitsOf_iff hlimits' name ceiling).trans (hsame name ceiling).symm]

/-- Texts for different names may come in any order. -/
theorem limitsOf_of_reordered (hreordered : Reordered texts texts')
    (hlimits : limitsOf texts = .ok limits) : limitsOf texts' = .ok limits := by
  rw [limitsOf_eq_ok_iff, exists_limitsOf_iff] at hlimits ⊢
  simpa only [hreordered.lastNamed_iff, hreordered.perm.mem_iff] using hlimits

/-- A license can carry every limit that is read. -/
theorem isEncodable_of_limitsOf (hlimits : limitsOf texts = .ok limits) : limits.IsEncodable := by
  rintro ⟨name, ceiling⟩ hentry
  obtain ⟨value, hlast, hspells⟩ :=
    (get?_limitsOf_iff hlimits name ceiling).mp (Table.get?_eq_some_iff.mpr hentry)
  obtain ⟨n, hle, hspells'⟩ := (exists_limitsOf_iff.mp ⟨limits, hlimits⟩).2 name value hlast
  rwa [hspells.unique hspells']

theorem canonicalPayload_ne_limitOutOfRange {claims : Claims} (hlimits : claims.limits.IsEncodable)
    (name : String) (ceiling : UInt64) :
    canonicalPayload claims ≠ .error (.limitOutOfRange name ceiling) := by
  unfold canonicalPayload
  rw [Limits.firstUnencodable?_eq_none_iff.mpr hlimits]
  split
  next => rintro ⟨⟩
  next => cases claims.toCanonical? <;> rintro ⟨⟩

/-! ## Limits that are written back -/

/-- A name that stands in front of an equals sign as it is. -/
def IsPlainName (name : String) : Prop :=
  Text.trim name = name ∧ ¬ Text.IsBlankText name ∧ '=' ∉ name.toList

/-- The text that orders a ceiling for a name. -/
def spelled (entry : String × UInt64) : String :=
  entry.1 ++ "=" ++ toString entry.2.toNat

theorem names_spelled {entry : String × UInt64} (hplain : IsPlainName entry.1) :
    Names (spelled entry) name value ↔ name = entry.1 ∧ value = toString entry.2.toNat := by
  have hnames : Names (spelled entry) entry.1 (toString entry.2.toNat) :=
    ⟨entry.1, toString entry.2.toNat, rfl, hplain.2.2, hplain.1.symm,
      (Text.trim_toString _).symm⟩
  refine ⟨fun hother => hother.unique hnames, ?_⟩
  rintro ⟨rfl, rfl⟩
  exact hnames

/-- Limits with plain names are read back from the texts that order them, whatever their order. -/
theorem limitsOf_spelled (hencodable : limits.IsEncodable)
    (hplain : ∀ entry ∈ limits.entries, IsPlainName entry.1)
    (htexts : texts.Perm (limits.entries.map spelled)) : limitsOf texts = .ok limits := by
  have hapart : texts.Pairwise NamesApart := by
    refine htexts.symm.pairwise (List.pairwise_map.mpr ?_) fun {_ _} hapart => hapart.symm
    refine limits.table.pairwise_ne.imp_of_mem fun {entry other} hentry hother hne => ?_
    intro name value value' hnames hnames'
    rw [names_spelled (hplain entry hentry)] at hnames
    rw [names_spelled (hplain other hother)] at hnames'
    exact hne (hnames.1.symm.trans hnames'.1)
  have hlast (name value : String) : LastNamed texts name value ↔
      ∃ ceiling, limits.get? name = some ceiling ∧ value = toString ceiling.toNat := by
    rw [lastNamed_iff_of_pairwise hapart]
    simp only [htexts.mem_iff, List.mem_map]
    constructor
    · rintro ⟨_, ⟨⟨name', ceiling⟩, hentry, rfl⟩, hnames⟩
      obtain ⟨rfl, rfl⟩ := (names_spelled (hplain _ hentry)).mp hnames
      exact ⟨ceiling, Table.get?_eq_some_iff.mpr hentry, rfl⟩
    · rintro ⟨ceiling, hentry, rfl⟩
      have hmem : (name, ceiling) ∈ limits.entries := Table.get?_eq_some_iff.mp hentry
      exact ⟨_, ⟨_, hmem, rfl⟩, (names_spelled (hplain _ hmem)).mpr ⟨rfl, rfl⟩⟩
  refine limitsOf_eq_ok_iff.mpr ⟨exists_limitsOf_iff.mpr ⟨fun text htext => ?_, ?_⟩, ?_⟩
  · obtain ⟨entry, hentry, rfl⟩ := List.mem_map.mp (htexts.mem_iff.mp htext)
    obtain ⟨-, hblank, hequals⟩ := hplain entry hentry
    exact ⟨entry.1, _, rfl, hequals, hblank⟩
  · intro name value hnamed
    obtain ⟨ceiling, hentry, rfl⟩ := (hlast name value).mp hnamed
    have hle : ceiling.toNat ≤ 2 ^ 53 - 1 := hencodable _ (Table.get?_eq_some_iff.mp hentry)
    exact ⟨_, hle, Text.spellsNatural_toString _⟩
  · intro name ceiling
    simp only [hlast]
    constructor
    · exact fun hentry => ⟨_, ⟨ceiling, hentry, rfl⟩, Text.spellsNatural_toString _⟩
    · rintro ⟨_, ⟨other, hentry, rfl⟩, hspells⟩
      have hsame := hspells.unique (Text.spellsNatural_toString other.toNat)
      rwa [UInt64.toNat_inj.mp hsame]

/-! ## The result -/

/-- Texts are read as limits exactly if each has an equals sign behind a name that is not blank, and
the last text for each name spells a number below 2^53. The limits that are read have these numbers
as their ceilings, wherever texts for other names stand, and no license is refused for carrying
them. Limits that a license carries are read back, in any order, if their names can stand in such
texts. -/
theorem limits_of_texts (texts : List String) :
    ((∃ limits, limitsOf texts = .ok limits) ↔
      (∀ text ∈ texts, IsPair text) ∧
        ∀ name value, LastNamed texts name value →
          ∃ n ≤ 2 ^ 53 - 1, Text.SpellsNatural value n) ∧
    (∀ limits, limitsOf texts = .ok limits →
      (∀ name ceiling, limits.get? name = some ceiling ↔
        ∃ value, LastNamed texts name value ∧ Text.SpellsNatural value ceiling.toNat) ∧
      (∀ texts', Reordered texts texts' → limitsOf texts' = .ok limits) ∧
      ∀ claims : Claims, claims.limits = limits →
        ∀ name ceiling, canonicalPayload claims ≠ .error (.limitOutOfRange name ceiling)) ∧
    ∀ claims payload, canonicalPayload claims = .ok payload →
      (∀ entry ∈ claims.limits.entries, IsPlainName entry.1) →
        texts.Perm (claims.limits.entries.map spelled) → limitsOf texts = .ok claims.limits := by
  refine ⟨exists_limitsOf_iff, fun limits hlimits => ⟨get?_limitsOf_iff hlimits, ?_, ?_⟩, ?_⟩
  · exact fun texts' hreordered => limitsOf_of_reordered hreordered hlimits
  · rintro claims rfl
    exact canonicalPayload_ne_limitOutOfRange (isEncodable_of_limitsOf hlimits)
  · intro claims payload hpayload hplain htexts
    obtain ⟨-, hlimits, -⟩ := canonicalPayload_eq_ok_iff.mp hpayload
    exact limitsOf_spelled (Limits.firstUnencodable?_eq_none_iff.mp hlimits) hplain htexts

/-- Two texts for one name, of which the first spells no number, and one for another name. -/
def ceilingTexts : List String :=
  ["seats = lots", "hosts=+9007199254740991", " seats =\u2003007"]

/-- The limits that these texts ask for. -/
def askedLimits : Limits :=
  (Limits.empty.set "hosts" 9007199254740991).set "seats" 7

/-- The text that spells no number does not matter, and the text between the two may stand in front
of them. A license can carry the limits. The limits of the ordered claims are read back. -/
theorem limits_of_texts_sample :
    limitsOf ceilingTexts = .ok askedLimits ∧
      limitsOf ["hosts=+9007199254740991", "seats = lots", " seats =\u2003007"] = .ok askedLimits ∧
      (∀ name ceiling, canonicalPayload { orderedClaims with limits := askedLimits } ≠
        .error (.limitOutOfRange name ceiling)) ∧
      limitsOf ["seats=25"] = .ok orderedClaims.limits := by
  obtain ⟨-, hread, -⟩ := limits_of_texts ceilingTexts
  obtain ⟨-, -, hback⟩ := limits_of_texts ["seats=25"]
  have hlimits : limitsOf ceilingTexts = .ok askedLimits := by decide +kernel
  have hseats : Names "seats = lots" "seats" "lots" :=
    ⟨"seats ", " lots", by decide, by decide, by decide, by decide⟩
  have hhosts : Names "hosts=+9007199254740991" "hosts" "+9007199254740991" :=
    ⟨"hosts", "+9007199254740991", by decide, by decide, by decide, by decide⟩
  have hapart : NamesApart "seats = lots" "hosts=+9007199254740991" := by
    intro name value value' hnames hnames'
    have hsame : "seats" = "hosts" := (hnames.unique hseats).1.symm.trans (hnames'.unique hhosts).1
    exact absurd hsame (by decide)
  obtain ⟨-, hreordered, hcarried⟩ := hread askedLimits hlimits
  refine ⟨hlimits, hreordered _ (.swap hapart _), hcarried _ rfl, ?_⟩
  exact hback orderedClaims _ canonicalPayload_orderedClaims (by unfold IsPlainName; decide)
    (by decide)

end Entitlement.Tool
