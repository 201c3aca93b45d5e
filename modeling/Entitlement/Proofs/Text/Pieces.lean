import Entitlement.Proofs.Text.Blank

/-! # Pieces between separators

Splitting is a homomorphism: the pieces of two lists with a separator between them are the pieces of
the one followed by those of the other, and a list without a separator is a piece of its own.
-/

namespace Entitlement.Text

section Lists

variable {α : Type} [DecidableEq α] {separator : α}

theorem pieces_cons_separator (rest : List α) :
    pieces separator (separator :: rest) = [] :: pieces separator rest := by
  rw [pieces, if_pos rfl]

/-- What is no separator joins the first piece of what follows. -/
theorem pieces_cons {c : α} (hc : c ≠ separator) (rest : List α) :
    ∃ piece more, pieces separator rest = piece :: more ∧
      pieces separator (c :: rest) = (c :: piece) :: more := by
  rw [pieces, if_neg hc]
  cases hrest : pieces separator rest with
  | nil =>
      cases rest with
      | nil => cases hrest
      | cons d rest =>
          rw [pieces] at hrest
          split at hrest
          · cases hrest
          · split at hrest <;> cases hrest
  | cons piece more => exact ⟨piece, more, rfl, rfl⟩

theorem pieces_append (front back : List α) :
    pieces separator (front ++ separator :: back) =
      pieces separator front ++ pieces separator back := by
  induction front with
  | nil => exact pieces_cons_separator back
  | cons c front ih =>
      by_cases hc : c = separator
      · rw [hc, List.cons_append, pieces_cons_separator, pieces_cons_separator, ih,
          List.cons_append]
      · obtain ⟨piece, more, hfront, hcons⟩ := pieces_cons hc front
        obtain ⟨piece', more', hall, hcons'⟩ := pieces_cons hc (front ++ separator :: back)
        rw [ih, hfront, List.cons_append] at hall
        obtain ⟨rfl, rfl⟩ := List.cons.inj hall
        rw [List.cons_append, hcons', hcons, List.cons_append]

theorem pieces_of_not_mem {list : List α} (hnone : separator ∉ list) :
    pieces separator list = [list] := by
  induction list with
  | nil => rfl
  | cons c list ih =>
      rw [List.mem_cons, not_or] at hnone
      obtain ⟨piece, more, hlist, hcons⟩ := pieces_cons (Ne.symm hnone.1) list
      rw [ih hnone.2] at hlist
      obtain ⟨rfl, rfl⟩ := List.cons.inj hlist
      exact hcons

theorem not_mem_of_mem_pieces {list piece : List α} (hpiece : piece ∈ pieces separator list) :
    separator ∉ piece := by
  induction list generalizing piece with
  | nil =>
      rw [List.mem_singleton.mp hpiece]
      exact List.not_mem_nil
  | cons c list ih =>
      by_cases hc : c = separator
      · rw [hc, pieces_cons_separator] at hpiece
        rcases List.mem_cons.mp hpiece with rfl | hmore
        · exact List.not_mem_nil
        · exact ih hmore
      · obtain ⟨first, more, hlist, hcons⟩ := pieces_cons hc list
        rw [hlist, List.forall_mem_cons] at ih
        rw [hcons] at hpiece
        rcases List.mem_cons.mp hpiece with rfl | hmore
        · exact List.not_mem_cons_of_ne_of_not_mem (Ne.symm hc) ih.1
        · exact ih.2 _ hmore

/-- A list is cut at the first separator. -/
theorem cut?_eq_some_iff {list before after : List α} :
    cut? separator list = some (before, after) ↔
      list = before ++ separator :: after ∧ separator ∉ before := by
  induction list generalizing before with
  | nil => simp [cut?]
  | cons c list ih =>
      rw [cut?]
      split
      next hc =>
        subst hc
        cases before with
        | nil => simp [eq_comm]
        | cons d before => simp +contextual [eq_comm]
      next hc =>
        cases before with
        | nil => simp [hc]
        | cons d before =>
            rw [Option.map_eq_some_iff]
            simp only [Prod.exists, Prod.mk.injEq, List.cons.injEq, List.cons_append, List.mem_cons,
              not_or]
            constructor
            · rintro ⟨front, back, hcut, ⟨rfl, rfl⟩, rfl⟩
              obtain ⟨hlist, hfront⟩ := ih.mp hcut
              exact ⟨⟨rfl, hlist⟩, Ne.symm hc, hfront⟩
            · rintro ⟨⟨rfl, hlist⟩, -, hfront⟩
              exact ⟨before, after, ih.mpr ⟨hlist, hfront⟩, ⟨rfl, rfl⟩, rfl⟩

theorem cut?_eq_none {list : List α} (hnone : separator ∉ list) : cut? separator list = none := by
  cases hcut : cut? separator list with
  | none => rfl
  | some parts =>
      obtain ⟨rfl, -⟩ := cut?_eq_some_iff.mp hcut
      exact absurd (List.mem_append_right _ List.mem_cons_self) hnone

end Lists

theorem split_append (separator : Char) (front back : String) :
    split separator (front ++ String.singleton separator ++ back) =
      split separator front ++ split separator back := by
  rw [split, split, split, String.toList_append, String.toList_append, String.toList_singleton,
    List.append_assoc, List.singleton_append, pieces_append, List.map_append]

theorem split_of_not_mem {separator : Char} {text : String} (hnone : separator ∉ text.toList) :
    split separator text = [text] := by
  rw [split, pieces_of_not_mem hnone, List.map_singleton, String.ofList_toList]

theorem not_mem_of_mem_split {separator : Char} {text piece : String}
    (hpiece : piece ∈ split separator text) : separator ∉ piece.toList := by
  obtain ⟨list, hlist, rfl⟩ := List.mem_map.mp hpiece
  rw [String.toList_ofList]
  exact not_mem_of_mem_pieces hlist

end Entitlement.Text
