import Entitlement.Proofs.Ascending
import Entitlement.Proofs.Json.Independent

/-! # Documents that can be read in one way only

Two readers of one document disagree if each of them picks another of two values that compete, or
minds something that the other one passes over. A reader is unambiguous if neither can happen: the
order of the members, members that nobody knows and blanks do not matter, and no known member may be
given twice. What is left to a last value are the names inside a table, and to a set the names that
come more than once.
-/

namespace Entitlement.Json

variable {α β γ σ : Type}

theorem toOption_eq_some_iff {result : Except ReadError α} {value : α} :
    result.toOption = some value ↔ result = .ok value := by
  cases result <;> simp [Except.toOption]

/-- A member has a name, and it is none of those that are known. -/
def IsUnknown (known : List String) (m : List UInt8 × Tree) : Prop :=
  ∃ name, textOf m.1 = some name ∧ name ∉ known

namespace Reader

/-- A reader is never left a choice by the object that a document spells. -/
structure IsUnambiguous (reader : Reader β) (known required : List String) : Prop where
  /-- Blanks, the order of the members and unknown members between them do not matter. -/
  respelled : ∀ {ms ms' extra : List (List UInt8 × Tree)} {document other : List UInt8} {value : β},
    IsDocument (.object ms) document → reader.read document = .ok value →
      ms'.Perm (ms ++ extra) → (∀ m ∈ extra, IsUnknown known m) → IsDocument (.object ms') other →
      reader.read other = .ok value
  /-- A known member that comes twice makes the reader fail, be the two values equal or not. -/
  repeated : ∀ {before between after : List (List UInt8 × Tree)} {m m' : List UInt8 × Tree}
    {name : String} {document : List UInt8}, name ∈ known → textOf m.1 = some name →
      textOf m'.1 = some name →
      IsDocument (.object (before ++ m :: (between ++ m' :: after))) document →
      ∃ e, reader.read document = .error e
  /-- So does a required member that is taken out. -/
  removed : ∀ {before after : List (List UInt8 × Tree)} {m : List UInt8 × Tree} {name : String}
    {document other : List UInt8} {value : β}, name ∈ required → textOf m.1 = some name →
      IsDocument (.object (before ++ m :: after)) document → reader.read document = .ok value →
      IsDocument (.object (before ++ after)) other → ∃ e, reader.read other = .error e

/-- `get` and `put` are about one part of a value. -/
structure IsPart (get : β → γ) (put : γ → β → β) : Prop where
  get_put : ∀ part value, get (put part value) = part
  put_put : ∀ part other value, put part (put other value) = put part value
  put_get : ∀ value, put (get value) value = value

/-- An optional member decides one part of what is read. `on` says what its value is read as. -/
structure HasPart (reader : Reader β) (name : String) (on : Tree → Option γ) (default : γ)
    (get : β → γ) (put : γ → β → β) : Prop where
  isPart : IsPart get put
  given : ∀ {before after : List (List UInt8 × Tree)} {m : List UInt8 × Tree}
    {document : List UInt8} {value : β}, textOf m.1 = some name →
      IsDocument (.object (before ++ m :: after)) document →
      reader.read document = .ok value → on m.2 = some (get value)
  /-- Without the member its part has the default, and the other parts stay. -/
  removed : ∀ {before after : List (List UInt8 × Tree)} {m : List UInt8 × Tree}
    {document other : List UInt8} {value : β}, textOf m.1 = some name →
      IsDocument (.object (before ++ m :: after)) document → reader.read document = .ok value →
      IsDocument (.object (before ++ after)) other → reader.read other = .ok (put default value)
  replaced : ∀ {before after : List (List UInt8 × Tree)} {m m' : List UInt8 × Tree}
    {document other : List UInt8} {value : β} {part : γ}, textOf m.1 = some name →
      IsDocument (.object (before ++ m :: after)) document → reader.read document = .ok value →
      textOf m'.1 = some name → on m'.2 = some part →
      IsDocument (.object (before ++ m' :: after)) other → reader.read other = .ok (put part value)

/-- Of the values that an optional table gives to one name the last one stays. -/
structure KeepsLast (reader : Reader β) (name : String) (on : Tree → Option α) (get : β → Table α) :
    Prop where
  last : ∀ {before after earlier later : List (List UInt8 × Tree)} {body : List UInt8}
    {entry : List UInt8 × Tree} {key : String} {document : List UInt8} {value : β},
      textOf body = some name →
      IsDocument (.object (before ++ (body, .object (earlier ++ entry :: later)) :: after))
        document →
      reader.read document = .ok value → textOf entry.1 = some key →
      (∀ other ∈ later, textOf other.1 ≠ some key) → (get value).get? key = on entry.2
  /-- A further entry can stand anywhere, and its name may be there already. -/
  inserted : ∀ {before after earlier later : List (List UInt8 × Tree)} {body : List UInt8}
    {entry : List UInt8 × Tree} {key : String} {item : α} {document other : List UInt8} {value : β},
      textOf body = some name →
      IsDocument (.object (before ++ (body, .object (earlier ++ later)) :: after)) document →
      reader.read document = .ok value → textOf entry.1 = some key → on entry.2 = some item →
      IsDocument (.object (before ++ (body, .object (earlier ++ entry :: later)) :: after)) other →
      ∃ value', reader.read other = .ok value'

/-- Names that an optional set is given more than once are in it once. -/
structure Collapses (reader : Reader β) (name : String) (get : β → NameSet) : Prop where
  has_iff : ∀ {before after : List (List UInt8 × Tree)} {body : List UInt8} {trees : List Tree}
    {document : List UInt8} {value : β}, textOf body = some name →
      IsDocument (.object (before ++ (body, .array trees) :: after)) document →
      reader.read document = .ok value →
      ∀ key, (get value).has key = true ↔ ∃ tree ∈ trees, tree.text? = some key
  repeated : ∀ {before after : List (List UInt8 × Tree)} {body : List UInt8}
    {earlier later : List Tree} {tree same : Tree} {document other : List UInt8} {value : β},
      textOf body = some name →
      IsDocument (.object (before ++ (body, .array (earlier ++ later)) :: after)) document →
      reader.read document = .ok value → same ∈ earlier ++ later → tree.text? = same.text? →
      IsDocument (.object (before ++ (body, .array (earlier ++ tree :: later)) :: after)) other →
      reader.read other = .ok value

end Reader

namespace Record

variable {record : Record σ} {on : String → Tree → Option σ} {pick : String → σ → σ → σ}
  {name : String} {ms ms' extra : List (List UInt8 × Tree)} {m : List UInt8 × Tree} {draft : σ}

/-! ## The order of the members -/

theorem entries_append (ms ms' : List (List UInt8 × Tree)) :
    record.entries on (ms ++ ms') = record.entries on ms ++ record.entries on ms' :=
  List.filterMap_append

theorem addedBy_of_isUnknown (hm : IsUnknown record.names m) : record.addedBy on m = some none := by
  obtain ⟨name, htext, hname⟩ := hm
  exact addedBy_of_unknown htext hname

/-- Unknown members add nothing. -/
theorem entries_of_unknown (hextra : ∀ m ∈ extra, IsUnknown record.names m) :
    record.entries on extra = [] := by
  refine List.filterMap_eq_nil_iff.mpr fun m hm => ?_
  rw [addedBy_of_isUnknown (hextra m hm)]
  rfl

/-- What is added to a draft when members change places and unknown ones come in. -/
theorem entries_perm (hperm : ms'.Perm (ms ++ extra))
    (hextra : ∀ m ∈ extra, IsUnknown record.names m) :
    (record.entries on ms').Perm (record.entries on ms) := by
  have hentries : (record.entries on ms').Perm (record.entries on (ms ++ extra)) :=
    hperm.filterMap _
  rwa [entries_append, entries_of_unknown hextra, List.append_nil] at hentries

theorem Accepts.respelled (haccepts : record.Accepts on ms) (hperm : ms'.Perm (ms ++ extra))
    (hextra : ∀ m ∈ extra, IsUnknown record.names m) : record.Accepts on ms' := by
  have hnames : (record.entryNames on ms').Perm (record.entryNames on ms) :=
    (entries_perm hperm hextra).map _
  refine ⟨fun m hm => ?_, hnames.nodup_iff.mpr haccepts.nodup, fun name hname =>
    hnames.mem_iff.mpr (haccepts.complete hname)⟩
  rcases List.mem_append.mp (hperm.mem_iff.mp hm) with hold | hnew
  · exact haccepts.readable m hold
  · rw [addedBy_of_isUnknown (hextra m hnew)]
    rfl

/-- A known member of an object that is read can be read itself. -/
theorem Accepts.exists_entry (haccepts : record.Accepts on ms) (hm : m ∈ ms)
    (htext : textOf m.1 = some name) (hname : name ∈ record.names) :
    ∃ added, on name m.2 = some added ∧ record.addedBy on m = some (some (name, added)) := by
  have hreadable := haccepts.readable m hm
  rw [addedBy_of_text htext hname, Option.isSome_map] at hreadable
  obtain ⟨added, hon⟩ := Option.isSome_iff_exists.mp hreadable
  exact ⟨added, hon, by rw [addedBy_of_text htext hname, hon]; rfl⟩

/-- No other member has its name. -/
theorem Accepts.notMem_entryNames (haccepts : record.Accepts on (m :: ms))
    (htext : textOf m.1 = some name) (hname : name ∈ record.names) :
    name ∉ record.entryNames on ms := by
  obtain ⟨added, -, hentry⟩ := haccepts.exists_entry List.mem_cons_self htext hname
  have hnodup := haccepts.nodup
  rw [entryNames, entries_cons_of_entry hentry, List.map_cons, List.nodup_cons] at hnodup
  exact hnodup.1

theorem accepts_cons_iff {added : σ} (hentry : record.addedBy on m = some (some (name, added)))
    (hoptional : name ∉ record.requiredNames) :
    record.Accepts on (m :: ms) ↔ name ∉ record.entryNames on ms ∧ record.Accepts on ms := by
  have hnames : record.entryNames on (m :: ms) = name :: record.entryNames on ms :=
    congrArg (List.map Prod.fst) (entries_cons_of_entry hentry ms)
  constructor
  · rintro ⟨hreadable, hnodup, hcomplete⟩
    rw [hnames] at hnodup hcomplete
    obtain ⟨hnew, hnodup⟩ := List.nodup_cons.mp hnodup
    refine ⟨hnew, (List.forall_mem_cons.mp hreadable).2, hnodup, fun other hother => ?_⟩
    rcases List.mem_cons.mp (hcomplete hother) with rfl | hmem
    · exact absurd hother hoptional
    · exact hmem
  · rintro ⟨hnew, hreadable, hnodup, hcomplete⟩
    refine ⟨List.forall_mem_cons.mpr ⟨by rw [hentry]; rfl, hreadable⟩, ?_, ?_⟩
    · rw [hnames]
      exact List.nodup_cons.mpr ⟨hnew, hnodup⟩
    · rw [hnames]
      exact fun other hother => List.mem_cons_of_mem _ (hcomplete hother)

namespace IsIndependent

/-- Entries with different names can be taken over in any order. -/
theorem addAll_perm (hrecord : record.IsIndependent on pick) {list list' : List (String × σ)}
    (hperm : list.Perm list') (hnodup : (list.map Prod.fst).Nodup) (draft : σ) :
    addAll pick draft list = addAll pick draft list' := by
  refine hperm.foldl_eq' (fun a ha b hb draft => ?_) draft
  by_cases hname : a.1 = b.1
  · rw [List.inj_on_of_nodup_map hnodup ha hb hname]
  · exact (hrecord.pick_comm hname a.2 b.2 draft).symm

theorem draftOf_respelled (hrecord : record.IsIndependent on pick)
    (hdraft : record.draftOf on pick ms = some draft) (hperm : ms'.Perm (ms ++ extra))
    (hextra : ∀ m ∈ extra, IsUnknown record.names m) : record.draftOf on pick ms' = some draft := by
  obtain ⟨haccepts, rfl⟩ := hrecord.draftOf_eq_some_iff.mp hdraft
  have haccepts' := haccepts.respelled hperm hextra
  refine hrecord.draftOf_eq_some_iff.mpr ⟨haccepts', ?_⟩
  exact (hrecord.addAll_perm (entries_perm hperm hextra) haccepts'.nodup record.start).symm

theorem draftOf_perm (hrecord : record.IsIndependent on pick) (hperm : ms'.Perm ms) :
    record.draftOf on pick ms' = record.draftOf on pick ms := by
  have hnone : ∀ m ∈ ([] : List (List UInt8 × Tree)), IsUnknown record.names m :=
    fun m hm => absurd hm List.not_mem_nil
  refine Option.ext fun draft => ⟨fun h => ?_, fun h => ?_⟩
  · exact hrecord.draftOf_respelled h (by simpa using hperm.symm) hnone
  · exact hrecord.draftOf_respelled h (by simpa using hperm) hnone

/-! ## A member more or less -/

theorem draftOf_of_repeated (hrecord : record.IsIndependent on pick) {m' : List UInt8 × Tree}
    (hname : name ∈ record.names) (htext : textOf m.1 = some name)
    (htext' : textOf m'.1 = some name) :
    record.draftOf on pick (m :: m' :: ms) = none := by
  refine Option.eq_none_iff_forall_ne_some.mpr fun draft hdraft => ?_
  obtain ⟨haccepts, -⟩ := hrecord.draftOf_eq_some_iff.mp hdraft
  obtain ⟨added, -, hentry⟩ :=
    haccepts.exists_entry (List.mem_cons_of_mem m List.mem_cons_self) htext' hname
  apply haccepts.notMem_entryNames htext hname
  rw [entryNames, entries_cons_of_entry hentry]
  exact List.mem_cons_self

theorem draftOf_of_removed (hrecord : record.IsIndependent on pick)
    (hname : name ∈ record.requiredNames) (htext : textOf m.1 = some name)
    (hdraft : record.draftOf on pick (m :: ms) = some draft) :
    record.draftOf on pick ms = none := by
  have hknown : name ∈ record.names := by
    obtain ⟨field, hfield, rfl⟩ := List.mem_map.mp hname
    exact List.mem_map_of_mem (List.mem_of_mem_filter hfield)
  obtain ⟨haccepts, -⟩ := hrecord.draftOf_eq_some_iff.mp hdraft
  refine Option.eq_none_iff_forall_ne_some.mpr fun draft hdraft => ?_
  obtain ⟨haccepts', -⟩ := hrecord.draftOf_eq_some_iff.mp hdraft
  exact haccepts.notMem_entryNames htext hknown (haccepts'.complete hname)

/-- An object with an optional member more is read if the others are, and adds the member to
them. -/
theorem draftOf_cons_eq_some_iff (hrecord : record.IsIndependent on pick)
    (hname : name ∈ record.names) (hoptional : name ∉ record.requiredNames)
    (htext : textOf m.1 = some name) :
    record.draftOf on pick (m :: ms) = some draft ↔
      ∃ added others, on name m.2 = some added ∧ record.draftOf on pick ms = some others ∧
        ¬ record.Gives others name ∧ draft = pick name added others := by
  -- What the member adds can be added last.
  have hlast : ∀ {added}, record.addedBy on m = some (some (name, added)) →
      record.Accepts on (m :: ms) → addAll pick record.start (record.entries on (m :: ms)) =
        pick name added (addAll pick record.start (record.entries on ms)) := by
    intro added hentry haccepts
    have hnodup := haccepts.nodup
    rw [entryNames, entries_cons_of_entry hentry] at hnodup
    rw [entries_cons_of_entry hentry,
      hrecord.addAll_perm (List.perm_append_singleton _ _).symm hnodup, addAll, List.foldl_append]
    rfl
  simp only [hrecord.draftOf_eq_some_iff]
  constructor
  · rintro ⟨haccepts, rfl⟩
    obtain ⟨added, hon, hentry⟩ := haccepts.exists_entry List.mem_cons_self htext hname
    obtain ⟨hnew, hothers⟩ := (accepts_cons_iff hentry hoptional).mp haccepts
    exact ⟨added, _, hon, ⟨hothers, rfl⟩, mt hrecord.gives_addAll_entries_iff.mp hnew,
      hlast hentry haccepts⟩
  · rintro ⟨added, _, hon, ⟨hothers, rfl⟩, hfree, rfl⟩
    have hentry : record.addedBy on m = some (some (name, added)) := by
      rw [addedBy_of_text htext hname, hon]
      rfl
    have haccepts := (accepts_cons_iff hentry hoptional).mpr
      ⟨mt hrecord.gives_addAll_entries_iff.mpr hfree, hothers⟩
    exact ⟨haccepts, (hlast hentry haccepts).symm⟩

end IsIndependent

/-! ## Readers for records -/

section Finish

variable {finish : σ → Except ReadError β} {document : List UInt8} {value : β}

theorem IsIndependent.read_eq_ok_iff (hrecord : record.IsIndependent on pick)
    (hdocument : IsDocument (.object ms) document) :
    (record.reader.check finish).read document = .ok value ↔
      ∃ draft, record.draftOf on pick ms = some draft ∧ finish draft = .ok value := by
  have hread := hrecord.toOption_read finish hdocument
  simp only [← toOption_eq_some_iff, hread, Option.bind_eq_some_iff]

theorem IsIndependent.exists_error (hrecord : record.IsIndependent on pick)
    (hdocument : IsDocument (.object ms) document) (hnone : record.draftOf on pick ms = none) :
    ∃ e, (record.reader.check finish).read document = .error e := by
  have hread := hrecord.toOption_read finish hdocument
  rw [hnone] at hread
  cases hresult : (record.reader.check finish).read document with
  | error e => exact ⟨e, rfl⟩
  | ok value => rw [hresult] at hread; cases hread

theorem IsIndependent.isUnambiguous (hrecord : record.IsIndependent on pick)
    (finish : σ → Except ReadError β) :
    (record.reader.check finish).IsUnambiguous record.names record.requiredNames := by
  constructor
  · intro ms ms' extra document other value hdocument hread hperm hextra hother
    obtain ⟨draft, hdraft, hfinish⟩ := (hrecord.read_eq_ok_iff hdocument).mp hread
    exact (hrecord.read_eq_ok_iff hother).mpr
      ⟨draft, hrecord.draftOf_respelled hdraft hperm hextra, hfinish⟩
  · intro before between after m m' name document hname htext htext' hdocument
    refine hrecord.exists_error hdocument ?_
    have hfront : (before ++ m :: (between ++ m' :: after)).Perm
        (m :: m' :: (before ++ between ++ after)) := by
      have hmiddle :
          (before ++ (between ++ m' :: after)).Perm (m' :: (before ++ between ++ after)) := by
        rw [← List.append_assoc]
        exact List.perm_middle
      exact List.perm_middle.trans (hmiddle.cons m)
    rw [hrecord.draftOf_perm hfront]
    exact hrecord.draftOf_of_repeated hname htext htext'
  · intro before after m name document other value hname htext hdocument hread hother
    obtain ⟨draft, hdraft, -⟩ := (hrecord.read_eq_ok_iff hdocument).mp hread
    rw [hrecord.draftOf_perm List.perm_middle] at hdraft
    exact hrecord.exists_error hother (hrecord.draftOf_of_removed hname htext hdraft)

/-- What an optional member stands for: the others are read without it, and then its part is put
in. -/
theorem IsIndependent.exists_base (hrecord : record.IsIndependent on pick) {part? : Tree → Option γ}
    {embed : γ → σ} {put : γ → β → β} (hname : name ∈ record.names)
    (hoptional : name ∉ record.requiredNames) (hon : ∀ tree, on name tree = (part? tree).map embed)
    (hfinish : ∀ part others, finish (pick name (embed part) others) = put part <$> finish others)
    {before after : List (List UInt8 × Tree)} (htext : textOf m.1 = some name)
    (hdocument : IsDocument (.object (before ++ m :: after)) document) :
    (record.reader.check finish).read document = .ok value ↔
      ∃ part others base, part? m.2 = some part ∧
        record.draftOf on pick (before ++ after) = some others ∧ ¬ record.Gives others name ∧
        finish others = .ok base ∧ value = put part base := by
  rw [hrecord.read_eq_ok_iff hdocument, hrecord.draftOf_perm List.perm_middle]
  simp only [hrecord.draftOf_cons_eq_some_iff hname hoptional htext, hon, Option.map_eq_some_iff]
  constructor
  · rintro ⟨_, ⟨_, others, ⟨part, hpart, rfl⟩, hothers, hfree, rfl⟩, hvalue⟩
    rw [hfinish] at hvalue
    cases hbase : finish others with
    | error e => rw [hbase] at hvalue; cases hvalue
    | ok base =>
        rw [hbase] at hvalue
        cases hvalue
        exact ⟨part, others, base, hpart, hothers, hfree, hbase, rfl⟩
  · rintro ⟨part, others, base, hpart, hothers, hfree, hbase, rfl⟩
    refine ⟨_, ⟨_, others, ⟨part, hpart, rfl⟩, hothers, hfree, rfl⟩, ?_⟩
    rw [hfinish, hbase]
    rfl

/-- An optional member of a record decides a part, if finishing a draft puts that part in. -/
theorem IsIndependent.hasPart (hrecord : record.IsIndependent on pick) {part? : Tree → Option γ}
    {embed : γ → σ} {default : γ} {get : β → γ} {put : γ → β → β} (hpart : Reader.IsPart get put)
    (hname : name ∈ record.names) (hoptional : name ∉ record.requiredNames)
    (hon : ∀ tree, on name tree = (part? tree).map embed)
    (hfinish : ∀ part others, finish (pick name (embed part) others) = put part <$> finish others)
    (hdefault : ∀ others base, ¬ record.Gives others name → finish others = .ok base →
      get base = default) :
    (record.reader.check finish).HasPart name part? default get put := by
  refine ⟨hpart, ?_, ?_, ?_⟩
  · intro before after m document value htext hdocument hread
    obtain ⟨part, others, base, hgiven, -, -, -, rfl⟩ :=
      (hrecord.exists_base hname hoptional hon hfinish htext hdocument).mp hread
    rw [hgiven, hpart.get_put]
  · intro before after m document other value htext hdocument hread hother
    obtain ⟨part, others, base, -, hothers, hfree, hbase, rfl⟩ :=
      (hrecord.exists_base hname hoptional hon hfinish htext hdocument).mp hread
    rw [hpart.put_put, ← hdefault others base hfree hbase, hpart.put_get]
    exact (hrecord.read_eq_ok_iff hother).mpr ⟨others, hothers, hbase⟩
  · intro before after m m' document other value part' htext hdocument hread htext' hgiven' hother
    obtain ⟨part, others, base, -, hothers, hfree, hbase, rfl⟩ :=
      (hrecord.exists_base hname hoptional hon hfinish htext hdocument).mp hread
    rw [hpart.put_put]
    exact (hrecord.exists_base hname hoptional hon hfinish htext' hother).mpr
      ⟨part', others, base, hgiven', hothers, hfree, hbase, rfl⟩

end Finish

end Record

/-! ## Tables and sets -/

theorem mapM_append_eq_some_iff {f : γ → Option α} {front back : List γ} {list : List α} :
    (front ++ back).mapM f = some list ↔
      ∃ first second, front.mapM f = some first ∧ back.mapM f = some second ∧
        list = first ++ second := by
  simp [List.mapM_append, Option.bind_eq_some_iff, @eq_comm _ list]

theorem mapM_cons_eq_some_iff {f : γ → Option α} {first : γ} {more : List γ} {list : List α} :
    (first :: more).mapM f = some list ↔
      ∃ value rest, f first = some value ∧ more.mapM f = some rest ∧ list = value :: rest := by
  simp [List.mapM_cons, Option.bind_eq_some_iff, @eq_comm _ list]

/-- Where every item has a value none is left out. -/
theorem filterMap_of_mapM {f : γ → Option α} {items : List γ} {list : List α}
    (hlist : items.mapM f = some list) : items.filterMap f = list := by
  induction items generalizing list with
  | nil =>
      cases hlist
      rfl
  | cons item items ih =>
      obtain ⟨first, rest, hfirst, hrest, rfl⟩ := mapM_cons_eq_some_iff.mp hlist
      rw [List.filterMap_cons_some hfirst, ih hrest]

/-- Items that were made from values have these values. -/
theorem mapM_map_eq_some {f : γ → Option α} {g : α → γ} (hvalue : ∀ value, f (g value) = some value)
    (list : List α) : (list.map g).mapM f = some list := by
  induction list with
  | nil => rfl
  | cons first rest ih => exact mapM_cons_eq_some_iff.mpr ⟨first, rest, hvalue first, ih, rfl⟩

theorem mem_iff_of_mapM {f : γ → Option α} {items : List γ} {list : List α}
    (hlist : items.mapM f = some list) {value : α} :
    value ∈ list ↔ ∃ item ∈ items, f item = some value := by
  induction items generalizing list with
  | nil =>
      cases hlist
      simp
  | cons item items ih =>
      obtain ⟨first, rest, hfirst, hrest, rfl⟩ := mapM_cons_eq_some_iff.mp hlist
      simp [ih hrest, hfirst, @eq_comm _ value]

theorem exists_of_mapM {f : γ → Option α} {items : List γ} {list : List α}
    (hlist : items.mapM f = some list) {item : γ} (hitem : item ∈ items) :
    ∃ value ∈ list, f item = some value := by
  obtain ⟨before, after, rfl⟩ := List.append_of_mem hitem
  obtain ⟨first, last, -, hlast, rfl⟩ := mapM_append_eq_some_iff.mp hlist
  obtain ⟨value, rest, hvalue, -, rfl⟩ := mapM_cons_eq_some_iff.mp hlast
  exact ⟨value, by simp, hvalue⟩

namespace Reader

theorem entryOf_eq_some_iff {on : Tree → Option α} {m : List UInt8 × Tree} {key : String}
    {item : α} :
    entryOf on m = some (key, item) ↔ textOf m.1 = some key ∧ on m.2 = some item := by
  simp [entryOf, Option.bind_eq_some_iff]

theorem HasPart.keepsLast {reader : Reader β} {name : String} {on : Tree → Option α}
    {default : Table α} {get : β → Table α} {put : Table α → β → β}
    (hpart : reader.HasPart name (tableOf on) default get put) : reader.KeepsLast name on get := by
  constructor
  · intro before after earlier later body entry key document value htext hdocument hread hkey hlater
    have hgiven := hpart.given htext hdocument hread
    obtain ⟨entries, hentries, htable⟩ := Option.map_eq_some_iff.mp hgiven
    obtain ⟨first, last, -, hlast, rfl⟩ := mapM_append_eq_some_iff.mp hentries
    obtain ⟨⟨key', item⟩, more, hentry, hmore, rfl⟩ := mapM_cons_eq_some_iff.mp hlast
    obtain ⟨hkey', hitem⟩ := entryOf_eq_some_iff.mp hentry
    obtain rfl := Option.some.inj (hkey.symm.trans hkey')
    rw [← htable, hitem]
    refine Table.get?_ofList_of_last first (fun other hother heq => ?_) item
    obtain ⟨m, hm, hother⟩ := (mem_iff_of_mapM hmore).mp hother
    exact hlater m hm (heq ▸ (entryOf_eq_some_iff.mp hother).1)
  · intro before after earlier later body entry key item document other value htext hdocument hread
      hkey hitem hother
    obtain ⟨entries, hentries, -⟩ := Option.map_eq_some_iff.mp (hpart.given htext hdocument hread)
    obtain ⟨first, last, hfirst, hlast, rfl⟩ := mapM_append_eq_some_iff.mp hentries
    have hmore : (earlier ++ entry :: later).mapM (entryOf on) =
        some (first ++ (key, item) :: last) :=
      mapM_append_eq_some_iff.mpr ⟨first, _, hfirst,
        mapM_cons_eq_some_iff.mpr ⟨_, last, entryOf_eq_some_iff.mpr ⟨hkey, hitem⟩, hlast, rfl⟩, rfl⟩
    have htable : tableOf on (.object (earlier ++ entry :: later)) =
        some (Ascending.ofList (first ++ (key, item) :: last)) := by
      rw [tableOf, hmore]
      rfl
    exact ⟨_, hpart.replaced htext hdocument hread htext htable hother⟩

theorem HasPart.collapses {reader : Reader β} {name : String} {default : NameSet}
    {get : β → NameSet} {put : NameSet → β → β}
    (hpart : reader.HasPart name Tree.names? default get put) :
    reader.Collapses name get := by
  constructor
  · intro before after body trees document value htext hdocument hread key
    obtain ⟨names, hnames, hset⟩ := Option.map_eq_some_iff.mp (hpart.given htext hdocument hread)
    rw [← hset, NameSet.has_ofList, mem_iff_of_mapM hnames]
  · intro before after body earlier later tree same document other value htext hdocument hread hsame
      htree hother
    obtain ⟨names, hnames, hset⟩ := Option.map_eq_some_iff.mp (hpart.given htext hdocument hread)
    obtain ⟨key, hkey, htext'⟩ := exists_of_mapM hnames hsame
    obtain ⟨first, last, hfirst, hlast, rfl⟩ := mapM_append_eq_some_iff.mp hnames
    have hmore : (earlier ++ tree :: later).mapM Tree.text? = some (first ++ key :: last) :=
      mapM_append_eq_some_iff.mpr ⟨first, _, hfirst,
        mapM_cons_eq_some_iff.mpr ⟨key, last, htree.trans htext', hlast, rfl⟩, rfl⟩
    -- The further name is one that the set has.
    have hsame : (Ascending.ofList (first ++ key :: last) : NameSet) = get value := by
      rw [← hset]
      refine NameSet.eq_of_has fun name => ?_
      rw [NameSet.has_ofList, NameSet.has_ofList, List.perm_middle.mem_iff, List.mem_cons]
      exact or_iff_right_of_imp fun heq => heq ▸ hkey
    have hset' : Tree.names? (.array (earlier ++ tree :: later)) = some (get value) := by
      rw [Tree.names?, hmore, Option.map_some, hsame]
    have hread' := hpart.replaced htext hdocument hread htext hset' hother
    rwa [hpart.isPart.put_get] at hread'

end Reader

end Entitlement.Json
