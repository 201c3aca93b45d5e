import Mathlib.Data.List.Induction
import Entitlement.Proofs.Plan.Limits

/-! # The ceiling written last

Ceilings are written one after the other. What was written for a name before its last ceiling leaves
no trace, nor does the order in which names were written: limits hold the last ceiling of each name
and nothing else, and list it at the place that the bytes of the name give it.
-/

namespace Entitlement.Plan.Limits

variable {limits : Limits} {writes : List (String × UInt64)} {name other : String}
  {ceiling : UInt64}

/-- Sets ceilings one after the other. -/
def setAll (limits : Limits) (writes : List (String × UInt64)) : Limits :=
  writes.foldl (fun limits entry => limits.set entry.1 entry.2) limits

/-- The ceilings of the Community edition one after the other. -/
def communityWrites : List (String × UInt64) :=
  [("max_hosts", 15), ("max_users", 3), ("max_domains", 1), ("max_links_per_month", 1000),
    ("max_api_requests_per_minute", 60), ("history_days", 30)]

/-- A ceiling has been written for a name, and after it no other one for this name. -/
def LastWrite (writes : List (String × UInt64)) (name : String) (ceiling : UInt64) : Prop :=
  ∃ before after, writes = before ++ (name, ceiling) :: after ∧ ∀ entry ∈ after, entry.1 ≠ name

/-- The ceilings of limits are those that were written last. -/
def Holds (limits : Limits) (writes : List (String × UInt64)) : Prop :=
  ∀ name ceiling, limits.get? name = some ceiling ↔ LastWrite writes name ceiling

/-! ## Single writes -/

theorem get?_set (limits : Limits) (name other : String) (ceiling : UInt64) :
    (limits.set name ceiling).get? other =
      if name = other then some ceiling else limits.get? other :=
  Table.get?_set limits.table name other ceiling

/-- Writes to different names can change places. -/
theorem set_comm (hne : name ≠ other) (limits : Limits) (ceiling value : UInt64) :
    (limits.set name ceiling).set other value = (limits.set other value).set name ceiling := by
  apply eq_of_get?
  intro key _
  simp only [get?_set]
  by_cases hname : name = key
  · have hother : other ≠ key := fun heq => hne (hname.trans heq.symm)
    simp only [if_pos hname, if_neg hother]
  · simp only [if_neg hname]

/-! ## Sequences of writes -/

/-- A further write is the last one for its name, and for no other name. -/
theorem lastWrite_concat_iff {entry : String × UInt64} :
    LastWrite (writes ++ [entry]) name ceiling ↔
      if entry.1 = name then entry.2 = ceiling else LastWrite writes name ceiling := by
  constructor
  · rintro ⟨before, after, hwrites, hafter⟩
    rcases List.eq_nil_or_concat after with rfl | ⟨middle, added, rfl⟩
    · obtain ⟨-, hentry⟩ := List.append_inj' hwrites rfl
      rw [List.singleton_inj.mp hentry]
      exact (if_pos rfl).mpr rfl
    · rw [List.concat_eq_append] at hwrites hafter
      rw [← List.cons_append, ← List.append_assoc] at hwrites
      obtain ⟨hfront, hentry⟩ := List.append_inj' hwrites rfl
      obtain ⟨hmiddle, hadded⟩ := List.forall_mem_append.mp hafter
      rw [List.singleton_inj.mp hentry, if_neg (hadded _ List.mem_cons_self)]
      exact ⟨before, middle, hfront, hmiddle⟩
  · intro hlast
    split at hlast
    next hname =>
      subst hname hlast
      exact ⟨writes, [], rfl, fun _ hentry => absurd hentry List.not_mem_nil⟩
    next hother =>
      obtain ⟨before, after, rfl, hafter⟩ := hlast
      refine ⟨before, after ++ [entry], by simp, ?_⟩
      exact List.forall_mem_append.mpr ⟨hafter, List.forall_mem_singleton.mpr hother⟩

/-- Of the writes for a name one is the last. -/
theorem exists_lastWrite_iff :
    (∃ ceiling, LastWrite writes name ceiling) ↔ name ∈ writes.map Prod.fst := by
  induction writes using List.reverseRecOn with
  | nil => simp [LastWrite]
  | append_singleton writes entry ih =>
      rw [List.map_append, List.mem_append, ← ih, List.map_singleton, List.mem_singleton]
      simp only [lastWrite_concat_iff]
      by_cases hname : entry.1 = name
      · simp [hname]
      · simp [hname, Ne.symm hname]

theorem holds_empty : Holds empty [] := by
  intro name ceiling
  refine iff_of_false (fun hsome => ?_) fun ⟨before, after, hnil, _⟩ => ?_
  · cases hsome
  · exact List.append_ne_nil_of_right_ne_nil before (List.cons_ne_nil _ after) hnil.symm

/-- Setting ceilings adds them to the table. -/
theorem setAll_eq (limits : Limits) (writes : List (String × UInt64)) :
    limits.setAll writes = ⟨limits.table.insertAll writes⟩ := by
  induction writes generalizing limits with
  | nil => rfl
  | cons entry writes ih => exact ih (limits.set entry.1 entry.2)

/-- One write more. -/
theorem Holds.set (hlimits : Holds limits writes) (name : String) (ceiling : UInt64) :
    Holds (limits.set name ceiling) (writes ++ [(name, ceiling)]) := by
  intro other value
  rw [get?_set, lastWrite_concat_iff]
  split
  next => exact Option.some_inj
  next => exact hlimits other value

/-- Whatever is written, the last ceilings are held. -/
theorem Holds.setAll (hlimits : Holds limits writes) (more : List (String × UInt64)) :
    Holds (limits.setAll more) (writes ++ more) := by
  induction more generalizing limits writes with
  | nil =>
      rw [List.append_nil]
      exact hlimits
  | cons entry more ih =>
      rw [List.append_cons]
      exact ih (hlimits.set entry.1 entry.2)

theorem holds_community : Holds community communityWrites :=
  holds_empty.setAll communityWrites

theorem Holds.get?_eq_none_iff (hlimits : Holds limits writes) :
    limits.get? name = none ↔ name ∉ writes.map Prod.fst := by
  rw [← exists_lastWrite_iff, Option.eq_none_iff_forall_ne_some, not_exists]
  exact forall_congr' fun ceiling => not_congr (hlimits name ceiling)

/-! ## Entries -/

/-- Entries come in the order of the bytes of their names. -/
theorem entries_pairwise (limits : Limits) :
    limits.entries.Pairwise fun a b => Text.bytes a.1 < Text.bytes b.1 :=
  limits.table.isAscending.imp Text.bytes_lt

/-- The names that are listed are those that have been written. -/
theorem Holds.mem_names_iff (hlimits : Holds limits writes) :
    name ∈ limits.entries.map Prod.fst ↔ name ∈ writes.map Prod.fst := by
  rw [List.mem_map, ← exists_lastWrite_iff]
  constructor
  · rintro ⟨⟨name, ceiling⟩, hentry, rfl⟩
    exact ⟨ceiling, (hlimits name ceiling).mp (mem_entries_iff.mp hentry)⟩
  · rintro ⟨ceiling, hlast⟩
    exact ⟨(name, ceiling), mem_entries_iff.mpr ((hlimits name ceiling).mpr hlast), rfl⟩

end Entitlement.Plan.Limits
