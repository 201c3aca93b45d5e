import Mathlib.Data.List.DropRight
import Entitlement.Text.Blank

/-! # Blanks around a text

Trimming takes away the blanks around a text and nothing else.
-/

namespace Entitlement.Text

/-- A text of blanks only. -/
def IsBlankText (text : String) : Prop :=
  ∀ c ∈ text.toList, isBlank c = true

instance (text : String) : Decidable (IsBlankText text) :=
  decidable_of_iff (text.toList.all isBlank = true) List.all_eq_true

theorem isBlankText_empty : IsBlankText "" := by
  simp [IsBlankText]

theorem dropBlanks_append {blanks cs : List Char} (hblanks : ∀ c ∈ blanks, isBlank c = true)
    (hcs : ∀ c ∈ cs, isBlank c = false) : dropBlanks (blanks ++ cs) = cs := by
  rw [dropBlanks, List.dropWhile_append_of_pos hblanks]
  cases cs with
  | nil => rfl
  | cons c cs => simp [hcs c List.mem_cons_self]

/-- Blanks in front of a text and behind it do not matter. -/
theorem trim_append {before text after : String} (hbefore : IsBlankText before)
    (htext : ∀ c ∈ text.toList, isBlank c = false) (hafter : IsBlankText after) :
    trim (before ++ text ++ after) = text := by
  have hreverse : ∀ c ∈ after.toList.reverse, isBlank c = true := fun c hc =>
    hafter c (List.mem_reverse.mp hc)
  have htextReverse : ∀ c ∈ text.toList.reverse, isBlank c = false := fun c hc =>
    htext c (List.mem_reverse.mp hc)
  cases hlist : text.toList with
  | nil =>
      -- Nothing separates the two runs of blanks, so the first trimming takes both.
      have hall : ∀ c ∈ before.toList ++ after.toList, isBlank c = true := fun c hc =>
        (List.mem_append.mp hc).elim (hbefore c) (hafter c)
      have hdrop := dropBlanks_append hall (by simp : ∀ c ∈ [], isBlank c = false)
      rw [List.append_nil] at hdrop
      have hempty : text = "" := String.toList_eq_nil_iff.mp hlist
      rw [hempty, trim, String.toList_append, String.toList_append, String.toList_empty,
        List.append_nil, hdrop]
      rfl
  | cons c cs =>
      have hdrop : dropBlanks (before.toList ++ (text.toList ++ after.toList)) =
          text.toList ++ after.toList := by
        rw [dropBlanks, List.dropWhile_append_of_pos hbefore, hlist, List.cons_append,
          List.dropWhile_cons_of_neg]
        simp [htext c (hlist ▸ List.mem_cons_self)]
      simp only [trim, String.toList_append, List.append_assoc, hdrop, List.reverse_append]
      rw [dropBlanks_append hreverse htextReverse, List.reverse_reverse, String.ofList_toList]

/-- A text without blanks is left as it is. -/
theorem trim_eq_self {text : String} (htext : ∀ c ∈ text.toList, isBlank c = false) :
    trim text = text := by
  have htrim := trim_append isBlankText_empty htext isBlankText_empty
  rwa [String.empty_append, String.append_empty] at htrim

/-! ## Blanks around any text -/

theorem dropBlanks_append_left {blanks : List Char} (hblanks : ∀ c ∈ blanks, isBlank c = true)
    (cs : List Char) : dropBlanks (blanks ++ cs) = dropBlanks cs :=
  List.dropWhile_append_of_pos hblanks

/-- Blanks in front of a text do not matter, whatever the text is. -/
theorem trim_append_left {before : String} (hbefore : IsBlankText before) (text : String) :
    trim (before ++ text) = trim text := by
  rw [trim, trim, String.toList_append, dropBlanks_append_left hbefore]

/-- Blanks behind a text do not matter, whatever the text is. -/
theorem trim_append_right (text : String) {after : String} (hafter : IsBlankText after) :
    trim (text ++ after) = trim text := by
  have hreverse : ∀ c ∈ after.toList.reverse, isBlank c = true := fun c hc =>
    hafter c (List.mem_reverse.mp hc)
  rw [trim, trim, String.toList_append]
  by_cases hblank : ∀ c ∈ text.toList, isBlank c = true
  · -- The text is blank itself, and nothing is left of either.
    have hall : dropBlanks (text.toList ++ after.toList) = [] :=
      List.dropWhile_eq_nil_iff.mpr fun c hc => (List.mem_append.mp hc).elim (hblank c) (hafter c)
    have hnone : dropBlanks text.toList = [] := List.dropWhile_eq_nil_iff.mpr hblank
    rw [hall, hnone]
  · have hkept : (text.toList.dropWhile isBlank).isEmpty = false := by
      rw [Bool.eq_false_iff, Ne, List.isEmpty_iff, List.dropWhile_eq_nil_iff]
      exact hblank
    have hdrop : dropBlanks (text.toList ++ after.toList) =
        dropBlanks text.toList ++ after.toList := by
      rw [dropBlanks, List.dropWhile_append, hkept]
      rfl
    rw [hdrop, List.reverse_append, dropBlanks_append_left hreverse]

theorem dropBlanks_dropBlanks (cs : List Char) : dropBlanks (dropBlanks cs) = dropBlanks cs :=
  List.dropWhile_idempotent _ cs

theorem takeWhile_append_dropBlanks (cs : List Char) : cs.takeWhile isBlank ++ dropBlanks cs = cs :=
  List.takeWhile_append_dropWhile

/-- What starts with no blank still starts with none when its end is taken away. -/
theorem dropBlanks_of_front {kept cs : List Char} (hfront : kept <+: cs)
    (hcs : dropBlanks cs = cs) : dropBlanks kept = kept := by
  obtain ⟨rest, rfl⟩ := hfront
  cases kept with
  | nil => rfl
  | cons c kept =>
      have hc := List.dropWhile_eq_self_iff.mp hcs (Nat.zero_lt_succ _)
      exact List.dropWhile_cons_of_neg hc

/-- Nothing is left of a text exactly if it is blank. -/
theorem trim_eq_empty_iff {text : String} : trim text = "" ↔ IsBlankText text := by
  constructor
  · intro hnothing c hc
    rw [trim, String.ofList_eq_empty_iff, List.reverse_eq_nil_iff, dropBlanks,
      List.dropWhile_eq_nil_iff] at hnothing
    rw [← takeWhile_append_dropBlanks text.toList] at hc
    rcases List.mem_append.mp hc with hfront | hrest
    · exact List.mem_takeWhile_imp hfront
    · exact hnothing c (List.mem_reverse.mpr hrest)
  · intro hblank
    have hbefore := trim_append_left hblank ""
    rw [String.append_empty] at hbefore
    exact hbefore

/-- Nothing more is taken away from a text that has been trimmed. -/
theorem trim_trim (text : String) : trim (trim text) = trim text := by
  rw [trim, trim, String.toList_ofList]
  have hfront : (dropBlanks (dropBlanks text.toList).reverse).reverse <+:
      dropBlanks text.toList := by
    have hsuffix := List.dropWhile_suffix (l := (dropBlanks text.toList).reverse) isBlank
    rw [← List.reverse_prefix, List.reverse_reverse] at hsuffix
    exact hsuffix
  rw [dropBlanks_of_front hfront (dropBlanks_dropBlanks _), List.reverse_reverse,
    dropBlanks_dropBlanks]

/-- A text is made up of what is left of it and blanks around that. -/
theorem exists_trim (text : String) :
    ∃ before after, IsBlankText before ∧ IsBlankText after ∧
      text = before ++ trim text ++ after := by
  have hback : (dropBlanks (dropBlanks text.toList).reverse).reverse ++
      ((dropBlanks text.toList).reverse.takeWhile isBlank).reverse = dropBlanks text.toList := by
    rw [← List.reverse_append, takeWhile_append_dropBlanks, List.reverse_reverse]
  refine ⟨String.ofList (text.toList.takeWhile isBlank),
    String.ofList ((dropBlanks text.toList).reverse.takeWhile isBlank).reverse, ?_, ?_, ?_⟩
  · intro c hc
    rw [String.toList_ofList] at hc
    exact List.mem_takeWhile_imp hc
  · intro c hc
    rw [String.toList_ofList, List.mem_reverse] at hc
    exact List.mem_takeWhile_imp hc
  · apply String.toList_inj.mp
    rw [String.toList_append, String.toList_append, trim, String.toList_ofList,
      String.toList_ofList, String.toList_ofList, List.append_assoc, hback,
      takeWhile_append_dropBlanks]

/-- A text that has been trimmed does not end in blanks. -/
theorem eq_empty_of_trim_append {text after : String} (hafter : IsBlankText after)
    (htrim : trim (text ++ after) = text ++ after) : after = "" := by
  obtain ⟨before, rest, -, -, htext⟩ := exists_trim text
  rw [trim_append_right text hafter] at htrim
  have hlength : text.length = before.length + (text.length + after.length) + rest.length := by
    rw [← String.length_append, ← htrim, ← String.length_append, ← String.length_append, ← htext]
  apply String.toList_eq_nil_iff.mp
  apply List.length_eq_zero_iff.mp
  rw [String.length_toList]
  omega

end Entitlement.Text
