import Mathlib.Data.List.Nodup
import Entitlement.Ascending

/-! # Collections and the order of their entries

An ascending collection does not remember in which order its entries came: whoever adds entries with
different keys one after the other ends with the same collection. This is what lets a document list
the members of a table in any order.
-/

namespace Entitlement.Ascending

variable {β : Type} {key : β → String}

/-- A new key only adds its entry. -/
theorem place_perm {entry : β} {entries : List β}
    (hnew : ∀ other ∈ entries, key other ≠ key entry) :
    (place key entry entries).Perm (entry :: entries) := by
  induction entries with
  | nil => exact List.Perm.refl _
  | cons head rest ih =>
      unfold place
      split
      next => exact List.Perm.refl _
      next hge =>
        split
        next =>
          have hrest := ih fun other hother => hnew other (List.mem_cons_of_mem _ hother)
          exact (hrest.cons head).trans (List.Perm.swap entry head rest)
        next hle =>
          have heq : key entry = key head :=
            String.le_antisymm (String.not_lt.mp hle) (String.not_lt.mp hge)
          exact absurd heq.symm (hnew head List.mem_cons_self)

theorem insertAll_perm {entries : Ascending β key} {more : List β}
    (hdistinct : (entries.toList ++ more).Pairwise fun a b => key a ≠ key b) :
    (entries.insertAll more).toList.Perm (entries.toList ++ more) := by
  induction more generalizing entries with
  | nil => simp [insertAll]
  | cons entry more ih =>
      -- The entry just added joins the collection, and the others still differ from it.
      obtain ⟨_, _, hcross⟩ := List.pairwise_append.mp hdistinct
      have hplace : (entries.insert entry).toList.Perm (entries.toList ++ [entry]) :=
        (place_perm fun other hother => hcross other hother entry List.mem_cons_self).trans
          (List.perm_append_singleton entry entries.toList).symm
      have hstep :
          ((entries.insert entry).toList ++ more).Perm (entries.toList ++ entry :: more) := by
        simpa using hplace.append_right more
      have hdistinct' := hstep.symm.pairwise hdistinct fun hne => hne.symm
      exact (ih hdistinct').trans hstep

/-- Collections with the same entries are equal. -/
theorem eq_of_perm {a b : Ascending β key} (hperm : a.toList.Perm b.toList) : a = b := by
  have hlist : a.toList = b.toList := by
    refine hperm.eq_of_pairwise (fun x y _ _ hxy hyx => ?_) a.isAscending b.isAscending
    exact absurd (String.lt_trans hxy hyx) (String.lt_irrefl _)
  cases a
  cases b
  cases hlist
  rfl

theorem pairwise_ne (entries : Ascending β key) :
    entries.toList.Pairwise fun a b => key a ≠ key b := by
  refine entries.isAscending.imp fun {a b} hlt (heq : key a = key b) => ?_
  rw [heq] at hlt
  exact String.lt_irrefl _ hlt

/-- The entries of a collection can be added in any order. -/
theorem ofList_of_perm {entries : Ascending β key} {list : List β}
    (hperm : list.Perm entries.toList) : ofList list = entries := by
  have hdistinct := hperm.symm.pairwise entries.pairwise_ne fun hne => hne.symm
  apply eq_of_perm
  exact (@insertAll_perm β key ∅ list hdistinct).trans hperm

theorem ofList_toList (entries : Ascending β key) : ofList entries.toList = entries :=
  ofList_of_perm (List.Perm.refl _)

/-! ## Looking up -/

theorem find?_cons (entry : β) (entries : List β) (name : String) :
    (entry :: entries).find? (fun other => key other == name) =
      if key entry = name then some entry else entries.find? fun other => key other == name := by
  by_cases hentry : key entry = name <;> simp [hentry]

/-- An entry is found under its key from then on, and nothing else is found in another way. -/
theorem find?_place (entry : β) (entries : List β) (name : String) :
    (place key entry entries).find? (fun other => key other == name) =
      if key entry = name then some entry else entries.find? fun other => key other == name := by
  induction entries with
  | nil => exact find?_cons entry [] name
  | cons head rest ih =>
      unfold place
      split
      next => exact find?_cons entry (head :: rest) name
      next hge =>
        split
        next hlt =>
          -- The entry in front keeps its place, and it has another key.
          have hne : key head ≠ key entry := fun heq => String.lt_irrefl _ (heq ▸ hlt)
          rw [find?_cons, find?_cons, ih]
          by_cases hentry : key entry = name
          · rw [if_pos hentry, if_pos hentry, if_neg (hentry ▸ hne)]
          · rw [if_neg hentry, if_neg hentry]
        next hle =>
          have heq : key entry = key head :=
            String.le_antisymm (String.not_lt.mp hle) (String.not_lt.mp hge)
          rw [find?_cons, find?_cons, ← heq]
          by_cases hentry : key entry = name
          · rw [if_pos hentry, if_pos hentry]
          · simp only [if_neg hentry]

end Entitlement.Ascending

namespace Entitlement.Table

variable {α : Type}

/-- A name has the value that it was given last, and the other names keep theirs. -/
theorem get?_set (table : Table α) (name other : String) (value : α) :
    (table.set name value).get? other = if name = other then some value else table.get? other := by
  change (Ascending.find? (Ascending.insert table (name, value)) other).map Prod.snd = _
  rw [Ascending.find?, Ascending.insert, Ascending.find?_place]
  split <;> rfl

/-- Entries for other names do not change the value of a name. -/
theorem get?_insertAll_of_ne {more : List (String × α)} {name : String}
    (hmore : ∀ entry ∈ more, entry.1 ≠ name) (table : Table α) :
    Table.get? (table.insertAll more) name = table.get? name := by
  induction more generalizing table with
  | nil => rfl
  | cons entry more ih =>
      obtain ⟨hentry, hrest⟩ := List.forall_mem_cons.mp hmore
      refine (ih hrest (table.set entry.1 entry.2)).trans ?_
      rw [get?_set, if_neg hentry]

/-- Of several entries for one name the last one stays. -/
theorem get?_ofList_of_last (before : List (String × α)) {after : List (String × α)} {name : String}
    (hafter : ∀ entry ∈ after, entry.1 ≠ name) (value : α) :
    Table.get? (Ascending.ofList (before ++ (name, value) :: after)) name = some value := by
  rw [Ascending.ofList, Ascending.insertAll, List.foldl_append]
  refine
    (get?_insertAll_of_ne hafter (Table.set (Ascending.insertAll _ before) name value)).trans ?_
  rw [get?_set, if_pos rfl]

/-- The values of a table are those of its entries. -/
theorem get?_eq_some_iff {table : Table α} {name : String} {value : α} :
    table.get? name = some value ↔ (name, value) ∈ table.toList := by
  rw [get?, Ascending.find?, Option.map_eq_some_iff]
  constructor
  · rintro ⟨⟨other, value⟩, hfound, rfl⟩
    obtain rfl : other = name := by simpa using List.find?_some hfound
    exact List.mem_of_find?_eq_some hfound
  · intro hentry
    have hsome : (table.toList.find? fun entry => entry.1 == name).isSome = true :=
      List.find?_isSome.mpr ⟨_, hentry, beq_self_eq_true name⟩
    obtain ⟨⟨other, value'⟩, hfound⟩ := Option.isSome_iff_exists.mp hsome
    obtain rfl : other = name := by simpa using List.find?_some hfound
    -- No two entries have this name.
    have hnodup : (table.toList.map Prod.fst).Nodup := List.pairwise_map.mpr table.pairwise_ne
    have hsame := List.inj_on_of_nodup_map hnodup (List.mem_of_find?_eq_some hfound) hentry rfl
    exact ⟨_, hfound, congrArg Prod.snd hsame⟩

/-- Tables with the same values are equal. -/
theorem eq_of_get? {a b : Table α}
    (hsame : ∀ name value, a.get? name = some value ↔ b.get? name = some value) : a = b := by
  have hnodup (table : Table α) : table.toList.Nodup :=
    table.pairwise_ne.imp fun hne heq => hne (congrArg Prod.fst heq)
  refine Ascending.eq_of_perm ((List.perm_ext_iff_of_nodup (hnodup a) (hnodup b)).mpr ?_)
  rintro ⟨name, value⟩
  rw [← get?_eq_some_iff, ← get?_eq_some_iff]
  exact hsame name value

end Entitlement.Table

namespace Entitlement.NameSet

theorem has_eq_isSome_find? (names : NameSet) (name : String) :
    names.has name = (names.find? name).isSome := by
  rw [Bool.eq_iff_iff]
  simp [has, Ascending.find?]

theorem has_insert (names : NameSet) (entry name : String) :
    NameSet.has (names.insert entry) name = true ↔ entry = name ∨ names.has name = true := by
  rw [has_eq_isSome_find?, has_eq_isSome_find?, Ascending.find?, Ascending.insert,
    Ascending.find?_place]
  by_cases hentry : entry = name <;> simp [hentry, Ascending.find?]

theorem has_insertAll (names : NameSet) (more : List String) (name : String) :
    NameSet.has (names.insertAll more) name = true ↔ name ∈ more ∨ names.has name = true := by
  induction more generalizing names with
  | nil => simp [Ascending.insertAll]
  | cons entry more ih =>
      refine (ih (names.insert entry)).trans ?_
      rw [has_insert, List.mem_cons, eq_comm, ← or_assoc, or_comm (a := name ∈ more)]

/-- A set of some names has these names and no others. -/
theorem has_ofList (list : List String) (name : String) :
    NameSet.has (Ascending.ofList list) name = true ↔ name ∈ list := by
  refine (has_insertAll ∅ list name).trans (or_iff_left ?_)
  exact Bool.false_ne_true

/-- Sets with the same names are equal. -/
theorem eq_of_has {a b : NameSet} (hsame : ∀ name, a.has name = true ↔ b.has name = true) :
    a = b := by
  refine Ascending.eq_of_perm ((List.perm_ext_iff_of_nodup a.pairwise_ne b.pairwise_ne).mpr ?_)
  simpa [has] using hsame

end Entitlement.NameSet
