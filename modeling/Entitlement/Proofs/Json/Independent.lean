import Mathlib.Data.List.Nodup
import Entitlement.Json.Record
import Entitlement.Proofs.Json.Compound

/-! # Records whose members do not depend on each other

An object is read into a record member by member. Where each member adds a value of its own and
nothing else of the draft changes, an object is read exactly if all its members can be read, no
member of the record is given twice and none that is required is missing; and what it is read as is
put together from the members in whatever order. So no two values ever compete for one member.
-/

namespace Entitlement.Json

variable {σ β : Type}

namespace Record

/-- The names of all members. -/
def names (record : Record σ) : List String :=
  record.fields.map Field.name

/-- The names of the members that have to be given. -/
def requiredNames (record : Record σ) : List String :=
  (record.fields.filter Field.isRequired).map Field.name

/-- A draft has a value for the member of this name. -/
def Gives (record : Record σ) (draft : σ) (name : String) : Prop :=
  ∃ field ∈ record.fields, field.name = name ∧ field.isGiven draft = true

/-- The members of a record do not depend on each other. `on` says what the value of a member is
read as: a draft of which only that member counts. `pick` takes a member from one draft over to
another. -/
structure IsIndependent (record : Record σ) (on : String → Tree → Option σ)
    (pick : String → σ → σ → σ) : Prop where
  names_nodup : record.names.Nodup
  reads : ∀ field ∈ record.fields, ∀ draft tree,
    (field.read draft).Reads tree ((on field.name tree).map (pick field.name · draft))
  isGiven_start : ∀ field ∈ record.fields, field.isGiven record.start = false
  isGiven_on : ∀ field ∈ record.fields, ∀ tree draft, on field.name tree = some draft →
    field.isGiven draft = true
  isGiven_pick : ∀ field ∈ record.fields, ∀ name a b,
    field.isGiven (pick name a b) = if field.name = name then field.isGiven a else field.isGiven b
  pick_comm : ∀ {name other}, name ≠ other → ∀ a b draft,
    pick name a (pick other b draft) = pick other b (pick name a draft)

section Reading

variable {record : Record σ} {on : String → Tree → Option σ} {pick : String → σ → σ → σ}
  {name : String} {ms : List (List UInt8 × Tree)}

/-! ## One member after the other -/

/-- What a member makes of a draft. -/
def readsMember (record : Record σ) (on : String → Tree → Option σ) (pick : String → σ → σ → σ)
    (draft : σ) (name : String) (tree : Tree) : Option σ :=
  match record.fields.find? fun field => field.name == name with
  | none => some draft
  | some field => if field.isGiven draft then none else (on name tree).map (pick name · draft)

/-- The draft that members are read into, if they can be. -/
def draftOf (record : Record σ) (on : String → Tree → Option σ) (pick : String → σ → σ → σ)
    (ms : List (List UInt8 × Tree)) : Option σ :=
  (ms.foldlM (Reader.readMember (record.readsMember on pick)) record.start).bind fun draft =>
    (record.complete draft).toOption

theorem IsIndependent.decides (hrecord : record.IsIndependent on pick) :
    Reader.Decides record.member (record.readsMember on pick) := by
  intro draft name tree
  unfold member readsMember
  cases hfound : record.fields.find? fun field => field.name == name with
  | none => exact (Reader.reads_skip tree).map fun () => draft
  | some field =>
      have hfield := List.mem_of_find?_eq_some hfound
      obtain rfl : field.name = name := by simpa using List.find?_some hfound
      dsimp only
      cases hgiven : field.isGiven draft with
      | true => rfl
      | false => exact hrecord.reads field hfield draft tree

theorem IsIndependent.reads_object (hrecord : record.IsIndependent on pick)
    (ms : List (List UInt8 × Tree)) :
    record.reader.Reads (.object ms) (record.draftOf on pick ms) := by
  intro ws v rest hws hv hrest
  obtain ⟨b, more, rfl, hb⟩ := hv.exists_cons
  cases hb
  rw [List.cons_append, Reader.run_onFirst rfl hws (by decide), afterFirst, if_neg (by decide),
    if_pos rfl, ofObject, draftOf]
  rcases Reader.cases_of_toOption
    (Reader.members_of_object hrecord.decides hv record.start rest) with
    ⟨draft, hdraft, hok⟩ | ⟨hnone, e, herror⟩
  · rw [hok, hdraft, toOption_map]
    rfl
  · rw [herror, hnone]
    rfl

/-- What is read from a document of an object is decided by its members. -/
theorem IsIndependent.toOption_read (hrecord : record.IsIndependent on pick)
    (finish : σ → Except ReadError β) {document : List UInt8}
    (hdocument : IsDocument (.object ms) document) :
    ((record.reader.check finish).read document).toOption =
      (record.draftOf on pick ms).bind fun draft => (finish draft).toOption :=
  ((hrecord.reads_object ms).check finish).read hdocument

/-! ## Which members are given -/

theorem Gives.mem_names {draft : σ} (hgives : record.Gives draft name) : name ∈ record.names := by
  obtain ⟨field, hfield, rfl, -⟩ := hgives
  exact List.mem_map_of_mem hfield

namespace IsIndependent

/-- The members of a record are found by their names. -/
theorem find?_name (hrecord : record.IsIndependent on pick) {field : Field σ}
    (hfield : field ∈ record.fields) :
    (record.fields.find? fun other => other.name == field.name) = some field := by
  have hsome : (record.fields.find? fun other => other.name == field.name).isSome = true :=
    List.find?_isSome.mpr ⟨field, hfield, beq_self_eq_true _⟩
  obtain ⟨found, hfound⟩ := Option.isSome_iff_exists.mp hsome
  have hname : found.name = field.name := by simpa using List.find?_some hfound
  rw [hfound, List.inj_on_of_nodup_map hrecord.names_nodup (List.mem_of_find?_eq_some hfound) hfield
    hname]

theorem gives_name_iff (hrecord : record.IsIndependent on pick) {field : Field σ}
    (hfield : field ∈ record.fields) {draft : σ} :
    record.Gives draft field.name ↔ field.isGiven draft = true := by
  constructor
  · rintro ⟨other, hother, hname, hgiven⟩
    rwa [← List.inj_on_of_nodup_map hrecord.names_nodup hother hfield hname]
  · exact fun hgiven => ⟨field, hfield, rfl, hgiven⟩

theorem not_gives_start (hrecord : record.IsIndependent on pick) :
    ¬ record.Gives record.start name := by
  rintro ⟨field, hfield, -, hgiven⟩
  exact absurd hgiven (Bool.eq_false_iff.mp (hrecord.isGiven_start field hfield))

/-- A draft has a member that is taken over and keeps the others. -/
theorem gives_pick_iff (hrecord : record.IsIndependent on pick) {other : String} {a b : σ}
    (ha : record.Gives a name) :
    record.Gives (pick name a b) other ↔ other = name ∨ record.Gives b other := by
  constructor
  · rintro ⟨field, hfield, rfl, hgiven⟩
    rw [hrecord.isGiven_pick field hfield] at hgiven
    split at hgiven
    next hname => exact .inl hname
    next => exact .inr ⟨field, hfield, rfl, hgiven⟩
  · intro hother
    have hmem : other ∈ record.names := hother.elim (fun heq => heq ▸ ha.mem_names) Gives.mem_names
    obtain ⟨field, hfield, rfl⟩ := List.mem_map.mp hmem
    refine ⟨field, hfield, rfl, ?_⟩
    rw [hrecord.isGiven_pick field hfield]
    by_cases hname : field.name = name
    · rw [if_pos hname]
      exact (hrecord.gives_name_iff hfield).mp (hname ▸ ha)
    · rw [if_neg hname]
      exact (hrecord.gives_name_iff hfield).mp (hother.resolve_left hname)

/-- Names are free after a member has been taken over if they are others and were free before. -/
theorem not_gives_pick_iff (hrecord : record.IsIndependent on pick) {others : List String} {a b : σ}
    (ha : record.Gives a name) :
    (∀ other ∈ others, ¬ record.Gives (pick name a b) other) ↔
      name ∉ others ∧ ∀ other ∈ others, ¬ record.Gives b other := by
  simp only [hrecord.gives_pick_iff ha, not_or, forall_and]
  exact and_congr_left fun _ => ⟨fun hne hmem => hne name hmem rfl,
    fun hnew other hother heq => hnew (heq ▸ hother)⟩

end IsIndependent

/-! ## All members together -/

/-- What a member adds to a draft: nothing if it has an unknown name, and else its name and
value. -/
def addedBy (record : Record σ) (on : String → Tree → Option σ) (m : List UInt8 × Tree) :
    Option (Option (String × σ)) :=
  (textOf m.1).bind fun name =>
    if name ∈ record.names then (on name m.2).map fun draft => some (name, draft) else some none

/-- What members add to a draft. -/
def entries (record : Record σ) (on : String → Tree → Option σ) (ms : List (List UInt8 × Tree)) :
    List (String × σ) :=
  ms.filterMap fun m => (record.addedBy on m).join

/-- The names of the members that are added to a draft. -/
def entryNames (record : Record σ) (on : String → Tree → Option σ) (ms : List (List UInt8 × Tree)) :
    List String :=
  (record.entries on ms).map Prod.fst

/-- Takes entries over into a draft. -/
def addAll (pick : String → σ → σ → σ) (draft : σ) (list : List (String × σ)) : σ :=
  list.foldl (fun draft entry => pick entry.1 entry.2 draft) draft

/-- The members of an object can be read: each of them can, none is given twice, and none is
missing. -/
structure Accepts (record : Record σ) (on : String → Tree → Option σ)
    (ms : List (List UInt8 × Tree)) : Prop where
  readable : ∀ m ∈ ms, (record.addedBy on m).isSome = true
  nodup : (record.entryNames on ms).Nodup
  complete : record.requiredNames ⊆ record.entryNames on ms

theorem addedBy_of_text {m : List UInt8 × Tree} (htext : textOf m.1 = some name)
    (hname : name ∈ record.names) :
    record.addedBy on m = (on name m.2).map fun draft => some (name, draft) := by
  rw [addedBy, htext, Option.bind_some, if_pos hname]

theorem addedBy_of_unknown {m : List UInt8 × Tree} (htext : textOf m.1 = some name)
    (hname : name ∉ record.names) : record.addedBy on m = some none := by
  rw [addedBy, htext, Option.bind_some, if_neg hname]

theorem addedBy_eq_some {m : List UInt8 × Tree} {draft : σ}
    (hentry : record.addedBy on m = some (some (name, draft))) :
    textOf m.1 = some name ∧ name ∈ record.names ∧ on name m.2 = some draft := by
  obtain ⟨text, htext, hfound⟩ := Option.bind_eq_some_iff.mp hentry
  split at hfound
  next hname =>
    obtain ⟨draft', hdraft, heq⟩ := Option.map_eq_some_iff.mp hfound
    cases heq
    exact ⟨htext, hname, hdraft⟩
  next => cases hfound

theorem entries_cons_of_unknown {m : List UInt8 × Tree} (hentry : record.addedBy on m = some none)
    (ms : List (List UInt8 × Tree)) : record.entries on (m :: ms) = record.entries on ms := by
  simp [entries, hentry]

theorem entries_cons_of_entry {m : List UInt8 × Tree} {entry : String × σ}
    (hentry : record.addedBy on m = some (some entry)) (ms : List (List UInt8 × Tree)) :
    record.entries on (m :: ms) = entry :: record.entries on ms := by
  simp [entries, hentry]

theorem readsMember_of_notMem {draft : σ} {tree : Tree} (hname : name ∉ record.names) :
    record.readsMember on pick draft name tree = some draft := by
  have hnone : (record.fields.find? fun field => field.name == name) = none := by
    rw [List.find?_eq_none]
    intro field hfield heq
    exact hname (eq_of_beq heq ▸ List.mem_map_of_mem hfield)
  rw [readsMember, hnone]

/-! One step: a member is added unless it cannot be read or its name is taken. -/

theorem readMember_of_unknown {m : List UInt8 × Tree} (hentry : record.addedBy on m = some none)
    (draft : σ) : Reader.readMember (record.readsMember on pick) draft m = some draft := by
  obtain ⟨name, htext, hfound⟩ := Option.bind_eq_some_iff.mp hentry
  rw [Reader.readMember, htext, Option.bind_some]
  refine readsMember_of_notMem fun hname => ?_
  rw [if_pos hname] at hfound
  obtain ⟨added, -, heq⟩ := Option.map_eq_some_iff.mp hfound
  cases heq

namespace IsIndependent

theorem gives_of_entry (hrecord : record.IsIndependent on pick) {m : List UInt8 × Tree} {draft : σ}
    (hentry : record.addedBy on m = some (some (name, draft))) : record.Gives draft name := by
  obtain ⟨-, hname, hon⟩ := addedBy_eq_some hentry
  obtain ⟨field, hfield, rfl⟩ := List.mem_map.mp hname
  exact ⟨field, hfield, rfl, hrecord.isGiven_on field hfield _ _ hon⟩

theorem gives_of_mem_entries (hrecord : record.IsIndependent on pick) {entry : String × σ}
    (hentry : entry ∈ record.entries on ms) : record.Gives entry.2 entry.1 := by
  obtain ⟨m, -, hm⟩ := List.mem_filterMap.mp hentry
  exact hrecord.gives_of_entry (Option.join_eq_some_iff.mp hm)

theorem readsMember_of_mem (hrecord : record.IsIndependent on pick) {draft next : σ} {tree : Tree}
    (hname : name ∈ record.names) :
    record.readsMember on pick draft name tree = some next ↔
      ¬ record.Gives draft name ∧ ∃ added, on name tree = some added ∧
        next = pick name added draft := by
  obtain ⟨field, hfield, rfl⟩ := List.mem_map.mp hname
  rw [readsMember, hrecord.find?_name hfield, hrecord.gives_name_iff hfield]
  cases hgiven : field.isGiven draft <;> simp [@eq_comm _ next, hgiven]

theorem readMember_of_unreadable (hrecord : record.IsIndependent on pick) {m : List UInt8 × Tree}
    (hentry : record.addedBy on m = none) (draft : σ) :
    Reader.readMember (record.readsMember on pick) draft m = none := by
  rw [Reader.readMember]
  cases htext : textOf m.1 with
  | none => rfl
  | some name =>
      by_cases hname : name ∈ record.names
      · rw [addedBy_of_text htext hname, Option.map_eq_none_iff] at hentry
        refine Option.eq_none_iff_forall_ne_some.mpr fun next hnext => ?_
        obtain ⟨-, added, hon, -⟩ := (hrecord.readsMember_of_mem hname).mp hnext
        cases hentry.symm.trans hon
      · rw [addedBy_of_unknown htext hname] at hentry
        cases hentry

theorem readMember_of_entry (hrecord : record.IsIndependent on pick) {m : List UInt8 × Tree}
    {added draft next : σ} (hentry : record.addedBy on m = some (some (name, added))) :
    Reader.readMember (record.readsMember on pick) draft m = some next ↔
      ¬ record.Gives draft name ∧ next = pick name added draft := by
  obtain ⟨htext, hname, hon⟩ := addedBy_eq_some hentry
  rw [Reader.readMember, htext, Option.bind_some, hrecord.readsMember_of_mem hname, hon]
  simp

/-- Members are added one after the other unless one of them cannot be read or a name comes
twice. -/
theorem foldlM_eq_some_iff (hrecord : record.IsIndependent on pick) {draft result : σ} :
    ms.foldlM (Reader.readMember (record.readsMember on pick)) draft = some result ↔
      (∀ m ∈ ms, (record.addedBy on m).isSome = true) ∧ (record.entryNames on ms).Nodup ∧
        (∀ name ∈ record.entryNames on ms, ¬ record.Gives draft name) ∧
        result = addAll pick draft (record.entries on ms) := by
  induction ms generalizing draft with
  | nil => simp [entryNames, entries, addAll, @eq_comm _ result]
  | cons m ms ih =>
      rw [List.foldlM_cons, Option.bind_eq_bind, List.forall_mem_cons]
      match hentry : record.addedBy on m with
      | none => simp [hrecord.readMember_of_unreadable hentry]
      | some none =>
          have hnames : record.entryNames on (m :: ms) = record.entryNames on ms :=
            congrArg (List.map Prod.fst) (entries_cons_of_unknown hentry ms)
          rw [readMember_of_unknown hentry, Option.bind_some, ih, hnames,
            entries_cons_of_unknown hentry]
          exact (and_iff_right rfl).symm.and Iff.rfl
      | some (some (name, added)) =>
          have hnames : record.entryNames on (m :: ms) = name :: record.entryNames on ms :=
            congrArg (List.map Prod.fst) (entries_cons_of_entry hentry ms)
          simp only [Option.bind_eq_some_iff, hrecord.readMember_of_entry hentry, and_assoc,
            exists_and_left, exists_eq_left, ih,
            hrecord.not_gives_pick_iff (hrecord.gives_of_entry hentry)]
          rw [hnames, List.nodup_cons, List.forall_mem_cons, entries_cons_of_entry hentry]
          constructor
          · rintro ⟨hnew, hreadable, hnodup, hother, hmore, hresult⟩
            exact ⟨rfl, hreadable, ⟨hother, hnodup⟩, ⟨hnew, hmore⟩, hresult⟩
          · rintro ⟨-, hreadable, ⟨hother, hnodup⟩, ⟨hnew, hmore⟩, hresult⟩
            exact ⟨hnew, hreadable, hnodup, hother, hmore, hresult⟩

theorem gives_addAll_iff (hrecord : record.IsIndependent on pick) {list : List (String × σ)}
    (hlist : ∀ entry ∈ list, record.Gives entry.2 entry.1) {draft : σ} :
    record.Gives (addAll pick draft list) name ↔
      name ∈ list.map Prod.fst ∨ record.Gives draft name := by
  induction list generalizing draft with
  | nil => simp [addAll]
  | cons entry list ih =>
      obtain ⟨hentry, hrest⟩ := List.forall_mem_cons.mp hlist
      refine (ih hrest).trans ?_
      rw [hrecord.gives_pick_iff hentry, List.map_cons, List.mem_cons, or_left_comm, or_assoc]

theorem toOption_complete_eq_some_iff (hrecord : record.IsIndependent on pick) {draft result : σ} :
    (record.complete draft).toOption = some result ↔
      (∀ name ∈ record.requiredNames, record.Gives draft name) ∧ result = draft := by
  have hgives : (∀ name ∈ record.requiredNames, record.Gives draft name) ↔
      ∀ field ∈ record.fields, field.isRequired = true → field.isGiven draft = true := by
    simp only [requiredNames, List.forall_mem_map, List.mem_filter, and_imp]
    exact forall₂_congr fun field hfield => by rw [hrecord.gives_name_iff hfield]
  unfold complete
  rw [hgives]
  cases hmissing : record.fields.find? fun field => field.isRequired && !field.isGiven draft with
  | some field =>
      have hnot := List.find?_some hmissing
      simp only [Bool.and_eq_true, Bool.not_eq_true'] at hnot
      constructor
      · intro herror
        cases herror
      · rintro ⟨hall, -⟩
        have hgiven := hall field (List.mem_of_find?_eq_some hmissing) hnot.1
        cases hnot.2.symm.trans hgiven
  | none =>
      have hall : ∀ field ∈ record.fields, field.isRequired = true →
          field.isGiven draft = true := by
        simpa using hmissing
      simp only [Except.toOption, Option.some.injEq, @eq_comm _ draft]
      exact (and_iff_right hall).symm

/-- What members add up to has exactly the members that are added. -/
theorem gives_addAll_entries_iff (hrecord : record.IsIndependent on pick) :
    record.Gives (addAll pick record.start (record.entries on ms)) name ↔
      name ∈ record.entryNames on ms :=
  (hrecord.gives_addAll_iff fun _ => hrecord.gives_of_mem_entries).trans
    (or_iff_left hrecord.not_gives_start)

/-- An object is read exactly if its members are accepted, and then as what all of them add up
to. -/
theorem draftOf_eq_some_iff (hrecord : record.IsIndependent on pick) {draft : σ} :
    record.draftOf on pick ms = some draft ↔
      record.Accepts on ms ∧ draft = addAll pick record.start (record.entries on ms) := by
  rw [draftOf, Option.bind_eq_some_iff]
  constructor
  · rintro ⟨draft, hfold, hcomplete⟩
    obtain ⟨hreadable, hnodup, -, rfl⟩ := hrecord.foldlM_eq_some_iff.mp hfold
    obtain ⟨hrequired, rfl⟩ := hrecord.toOption_complete_eq_some_iff.mp hcomplete
    exact ⟨⟨hreadable, hnodup, fun name hname =>
      hrecord.gives_addAll_entries_iff.mp (hrequired name hname)⟩, rfl⟩
  · rintro ⟨⟨hreadable, hnodup, hrequired⟩, rfl⟩
    refine ⟨_, hrecord.foldlM_eq_some_iff.mpr ⟨hreadable, hnodup, ?_, rfl⟩,
      hrecord.toOption_complete_eq_some_iff.mpr ⟨?_, rfl⟩⟩
    · exact fun name _ => hrecord.not_gives_start
    · exact fun name hname => hrecord.gives_addAll_entries_iff.mpr (hrequired hname)

end IsIndependent

end Reading

end Record

end Entitlement.Json
