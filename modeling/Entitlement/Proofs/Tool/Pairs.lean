import Entitlement.Proofs.Ascending
import Entitlement.Proofs.Key.Verify
import Entitlement.Proofs.Text.Pieces
import Entitlement.Tool.Run

/-! # Names with values

Limits and metadata are ordered with texts that give a value to a name. Such a text is taken apart
at its first equals sign, so a value may hold further ones. A name may be given several values; the
tables that are made of the texts keep the last of them.
-/

namespace Entitlement.Tool

open Key Plan

/-- A text gives a value to a name if they stand on both sides of its first equals sign. Blanks
around them do not count. -/
def Names (text name value : String) : Prop :=
  ∃ before after, text = before ++ "=" ++ after ∧ '=' ∉ before.toList ∧ name = Text.trim before ∧
    value = Text.trim after

/-- A name is given a value by the last of some texts that gives it one. -/
inductive LastNamed : List String → String → String → Prop where
  | here {text name value : String} {more : List String} (hnames : Names text name value)
      (hlast : ∀ other ∈ more, ∀ value', ¬ Names other name value') :
      LastNamed (text :: more) name value
  | later {text name value : String} {more : List String} (hmore : LastNamed more name value) :
      LastNamed (text :: more) name value

theorem lastNamed_cons_iff {text name value : String} {more : List String} :
    LastNamed (text :: more) name value ↔
      LastNamed more name value ∨
        (∀ other ∈ more, ∀ value', ¬ Names other name value') ∧ Names text name value := by
  constructor
  · intro hlast
    cases hlast with
    | here hnames hlast => exact .inr ⟨hlast, hnames⟩
    | later hmore => exact .inl hmore
  · rintro (hmore | ⟨hlast, hnames⟩)
    · exact .later hmore
    · exact .here hnames hlast

/-! ## One text -/

theorem names_iff {text name value : String} :
    Names text name value ↔ ∃ front back, Text.cut? '=' text.toList = some (front, back) ∧
      name = Text.trim (String.ofList front) ∧ value = Text.trim (String.ofList back) := by
  constructor
  · rintro ⟨before, after, rfl, hbefore, rfl, rfl⟩
    have hcut : Text.cut? '=' (before ++ "=" ++ after).toList =
        some (before.toList, after.toList) :=
      Text.cut?_eq_some_iff.mpr ⟨by simp, hbefore⟩
    exact ⟨before.toList, after.toList, hcut, by rw [String.ofList_toList],
      by rw [String.ofList_toList]⟩
  · rintro ⟨front, back, hcut, rfl, rfl⟩
    obtain ⟨htext, hfront⟩ := Text.cut?_eq_some_iff.mp hcut
    refine ⟨String.ofList front, String.ofList back, ?_, ?_, rfl, rfl⟩
    · rw [← String.toList_inj, htext]
      simp
    · rwa [String.toList_ofList]

theorem pairOf_eq_ok_iff {flag text name value : String} :
    pairOf flag text = .ok (name, value) ↔ Names text name value ∧ name ≠ "" := by
  unfold pairOf
  rw [names_iff]
  cases Text.cut? '=' text.toList with
  | none => simp
  | some parts =>
      obtain ⟨front, back⟩ := parts
      simp only [Option.some.injEq, Prod.mk.injEq, ↓existsAndEq, true_and]
      split
      next hempty =>
        refine iff_of_false (fun hnone => by cases hnone) ?_
        rintro ⟨⟨rfl, -⟩, hne⟩
        exact hne hempty
      next hne =>
        rw [Except.ok.injEq, Prod.mk.injEq, eq_comm, @eq_comm _ _ value]
        exact ⟨fun hboth => ⟨hboth, hboth.1 ▸ hne⟩, And.left⟩

/-- A text gives no more than one value to one name. -/
theorem Names.unique {text name name' value value' : String} (hnames : Names text name value)
    (hnames' : Names text name' value') : name = name' ∧ value = value' := by
  obtain ⟨front, back, hcut, rfl, rfl⟩ := names_iff.mp hnames
  obtain ⟨front', back', hcut', rfl, rfl⟩ := names_iff.mp hnames'
  obtain ⟨rfl, rfl⟩ := Prod.mk.inj (Option.some.inj (hcut.symm.trans hcut'))
  exact ⟨rfl, rfl⟩

/-! ## Several texts -/

/-- A table to which the pairs of some texts are added holds what the texts give last, and else what
it held before. -/
theorem get?_insertAll_pairs {flag : String} {texts : List String} {pairs : List (String × String)}
    (hpairs : texts.mapM (pairOf flag) = .ok pairs) (table : Table String) (name value : String) :
    Table.get? (table.insertAll pairs) name = some value ↔
      LastNamed texts name value ∨
        (∀ text ∈ texts, ∀ value', ¬ Names text name value') ∧ table.get? name = some value := by
  induction texts generalizing pairs table with
  | nil =>
      obtain rfl := Except.ok.inj hpairs
      have hnone : ¬ LastNamed [] name value := by rintro ⟨⟩
      simp [hnone, Ascending.insertAll]
  | cons text texts ih =>
      rw [List.mapM_cons, bind_eq_ok_iff] at hpairs
      obtain ⟨⟨first, given⟩, hfirst, hmore⟩ := hpairs
      obtain ⟨pairs, hrest, hpairs⟩ := bind_eq_ok_iff.mp hmore
      obtain rfl := Except.ok.inj hpairs
      obtain ⟨hnames, -⟩ := pairOf_eq_ok_iff.mp hfirst
      refine (ih hrest (table.set first given)).trans ?_
      rw [lastNamed_cons_iff, Table.get?_set, or_assoc]
      refine or_congr_right ?_
      by_cases hsame : first = name
      · subst hsame
        have hvalue : Names text first value ↔ given = value :=
          ⟨fun hother => (hnames.unique hother).2, fun hgiven => hgiven ▸ hnames⟩
        have hnamed : ¬ ∀ other ∈ text :: texts, ∀ value', ¬ Names other first value' :=
          fun hnone => hnone text List.mem_cons_self given hnames
        simp only [if_true, hvalue, hnamed, false_and, or_false, Option.some.injEq]
      · have hother : ∀ value', ¬ Names text name value' :=
          fun value' hgiven => hsame (hnames.unique hgiven).1
        simp only [if_neg hsame, hother, and_false, false_or, List.forall_mem_cons,
          not_false_eq_true, implies_true, true_and]

/-- A name has the value that the texts give it last, and other names have none. -/
theorem get?_pairsOf {flag : String} {texts : List String} {table : Table String}
    (htable : pairsOf flag texts = .ok table) (name value : String) :
    table.get? name = some value ↔ LastNamed texts name value := by
  obtain ⟨pairs, hpairs, htable⟩ := bind_eq_ok_iff.mp htable
  obtain rfl := Except.ok.inj htable
  refine (get?_insertAll_pairs hpairs ∅ name value).trans (or_iff_left ?_)
  rintro ⟨-, hnone⟩
  cases hnone

/-! ## Limits -/

theorem ceilingOf_eq_ok {name text : String} {ceiling : UInt64}
    (hceiling : ceilingOf name text = .ok ceiling) :
    Text.naturalOfText largestWord text = .ok ceiling.toNat := by
  obtain ⟨n, hn, hceiling⟩ := bind_eq_ok_iff.mp hceiling
  rw [mapError_eq_ok_iff] at hn
  split at hceiling
  next => cases hceiling
  next hle =>
    obtain rfl := Except.ok.inj hceiling
    have hmax : Limits.maxEncodable.toNat < UInt64.size := Limits.maxEncodable.toNat_lt_size
    rw [hn, UInt64.toNat_ofNat_of_lt' (by omega)]

/-- Where each name occurs once, it gets the ceiling whose digits stand with it. -/
theorem get?_foldlM_ceilings {pairs : List (String × String)}
    (hdistinct : pairs.Pairwise fun a b => a.1 ≠ b.1) {start limits : Limits}
    (hlimits : pairs.foldlM (fun (limits : Limits) (pair : String × String) =>
      return limits.set pair.1 (← ceilingOf pair.1 pair.2)) start = .ok limits)
    (name : String) (ceiling : UInt64) :
    limits.get? name = some ceiling ↔
      (∃ text, (name, text) ∈ pairs ∧ Text.naturalOfText largestWord text = .ok ceiling.toNat) ∨
        (∀ pair ∈ pairs, pair.1 ≠ name) ∧ start.get? name = some ceiling := by
  induction pairs generalizing start with
  | nil =>
      obtain rfl := Except.ok.inj hlimits
      simp
  | cons pair pairs ih =>
      obtain ⟨first, text⟩ := pair
      obtain ⟨hfirst, hdistinct⟩ := List.pairwise_cons.mp hdistinct
      rw [List.foldlM_cons, bind_eq_ok_iff] at hlimits
      obtain ⟨next, hnext, hlimits⟩ := hlimits
      obtain ⟨given, hgiven, hnext⟩ := bind_eq_ok_iff.mp hnext
      obtain rfl := Except.ok.inj hnext
      refine (ih hdistinct hlimits).trans ?_
      have hset : (start.set first given).get? name =
          if first = name then some given else start.get? name := Table.get?_set _ _ _ _
      rw [hset]
      by_cases hsame : first = name
      · subst hsame
        have hnone : ∀ other, (first, other) ∉ pairs := fun other hother => hfirst _ hother rfl
        have hothers : ∀ pair ∈ pairs, pair.1 ≠ first := fun pair hpair => (hfirst pair hpair).symm
        have hread : Text.naturalOfText largestWord text = .ok ceiling.toNat ↔ given = ceiling := by
          rw [ceilingOf_eq_ok hgiven, Except.ok.injEq, UInt64.toNat_inj]
        simpa [hnone, hread] using fun _ => hothers
      · have hname : name ≠ first := Ne.symm hsame
        simp [hsame, hname]

/-- A name has the ceiling whose digits the texts give it last, and other names have none. -/
theorem get?_limitsOf {texts : List String} {limits : Limits}
    (hlimits : limitsOf texts = .ok limits) (name : String) (ceiling : UInt64) :
    limits.get? name = some ceiling ↔
      ∃ text, LastNamed texts name text ∧
        Text.naturalOfText largestWord text = .ok ceiling.toNat := by
  obtain ⟨table, htable, hlimits⟩ := bind_eq_ok_iff.mp hlimits
  refine (get?_foldlM_ceilings table.pairwise_ne hlimits name ceiling).trans
    ((or_iff_left ?_).trans ?_)
  · rintro ⟨-, hnone⟩
    cases hnone
  · simp only [← Table.get?_eq_some_iff, get?_pairsOf htable]

end Entitlement.Tool
