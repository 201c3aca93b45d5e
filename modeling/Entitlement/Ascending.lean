/-! # Ascending collections

An ascending collection holds entries in strictly ascending order of a text that each entry carries.
The order is that of code points, which for texts is also the order of their UTF-8 bytes. Names with
values and plain sets of names are both ascending collections; because the order is part of the
type, two collections with the same entries are equal.
-/

namespace Entitlement

/-- Entries in strictly ascending order of their keys. -/
structure Ascending (β : Type) (key : β → String) where
  toList : List β
  isAscending : toList.Pairwise fun a b => key a < key b

namespace Ascending

variable {β : Type} {key : β → String}

/-- Collections are compared by their entries. -/
instance [DecidableEq β] : DecidableEq (Ascending β key) := fun a b =>
  if h : a.toList = b.toList then
    isTrue (by cases a; cases b; cases h; rfl)
  else
    isFalse fun heq => h (heq ▸ rfl)

/-- The collection without entries. -/
def empty : Ascending β key := ⟨[], List.Pairwise.nil⟩

instance : EmptyCollection (Ascending β key) := ⟨empty⟩

instance : Inhabited (Ascending β key) := ⟨empty⟩

/-- Puts an entry in its place; an entry with the same key gives way. -/
def place (key : β → String) (entry : β) : List β → List β
  | [] => [entry]
  | head :: rest =>
    if key entry < key head then entry :: head :: rest
    else if key head < key entry then head :: place key entry rest
    else entry :: rest

theorem mem_place {entry other : β} {entries : List β} (h : other ∈ place key entry entries) :
    other = entry ∨ other ∈ entries := by
  induction entries with
  | nil => simpa [place] using h
  | cons head rest ih =>
    unfold place at h
    split at h
    · simpa using h
    · split at h
      · rcases List.mem_cons.mp h with rfl | h
        · exact .inr List.mem_cons_self
        · exact (ih h).imp_right (List.mem_cons_of_mem _)
      · exact (List.mem_cons.mp h).imp_right (List.mem_cons_of_mem _)

theorem place_pairwise {entries : List β} (entry : β)
    (h : entries.Pairwise fun a b => key a < key b) :
    (place key entry entries).Pairwise fun a b => key a < key b := by
  induction entries with
  | nil => simp [place]
  | cons head rest ih =>
    obtain ⟨hhead, hrest⟩ := List.pairwise_cons.mp h
    unfold place
    split
    next hlt =>
      refine List.pairwise_cons.mpr ⟨fun other hother => ?_, h⟩
      rcases List.mem_cons.mp hother with rfl | hother
      · exact hlt
      · exact String.lt_trans hlt (hhead other hother)
    next hge =>
      split
      next hlt =>
        refine List.pairwise_cons.mpr ⟨fun other hother => ?_, ih hrest⟩
        rcases mem_place hother with rfl | hother
        · exact hlt
        · exact hhead other hother
      next hle =>
        have heq : key entry = key head :=
          String.le_antisymm (String.not_lt.mp hle) (String.not_lt.mp hge)
        exact List.pairwise_cons.mpr ⟨fun other hother => heq ▸ hhead other hother, hrest⟩

/-- Adds an entry; an entry with the same key gives way. -/
def insert (entries : Ascending β key) (entry : β) : Ascending β key :=
  ⟨place key entry entries.toList, place_pairwise entry entries.isAscending⟩

/-- Adds entries one after the other, so that of several with one key the last one stays. -/
def insertAll (entries : Ascending β key) (more : List β) : Ascending β key :=
  more.foldl insert entries

/-- The collection of some entries; of several with one key the last one stays. -/
def ofList (entries : List β) : Ascending β key :=
  insertAll empty entries

/-- The entry with a given key. -/
def find? (entries : Ascending β key) (name : String) : Option β :=
  entries.toList.find? fun entry => key entry == name

end Ascending

/-- A table gives values to names, in ascending order of the names. -/
abbrev Table (α : Type) := Ascending (String × α) Prod.fst

/-- A set of names in ascending order. -/
abbrev NameSet := Ascending String id

/-- Gives a value to a name, in place of any value it has. -/
def Table.set {α : Type} (table : Table α) (name : String) (value : α) : Table α :=
  table.insert (name, value)

/-- The value of a name. -/
def Table.get? {α : Type} (table : Table α) (name : String) : Option α :=
  (table.find? name).map Prod.snd

/-- Whether a name is in the set. -/
def NameSet.has (names : NameSet) (name : String) : Bool :=
  names.toList.contains name

end Entitlement
