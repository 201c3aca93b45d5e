import Entitlement.Json.Canonical
import Entitlement.Proofs.Json.Reading

/-! # Objects and the order of their members

An object is read member by member, and each member is read in the state that those before it have
left. Where every member adds its value independently of the others, the order in which a writer
puts the members does not matter. Tables and records are read in this way.
-/

namespace Entitlement.Json

open Text

namespace Reader

variable {α σ : Type} {field : σ → String → Except ReadError (Reader σ)}

/-! ## From member to member -/

/-- Members lead from one state to another if each is taken in the state that the members before it
have left. -/
inductive Leads (field : σ → String → Except ReadError (Reader σ)) :
    σ → List Member → σ → Prop where
  | nil (state : σ) : Leads field state [] state
  | cons {state next last : σ} {name text : String} {more : List Member} {reader : Reader σ}
      (hfield : field state name = .ok reader) (htext : reader.Takes text next)
      (hmore : Leads field next more last) : Leads field state ((name, text) :: more) last

theorem bytes_member (m : Member) :
    bytes (member m) = byte '"' ::
      (bytes (String.ofList (m.1.toList.flatMap escape)) ++ byte '"' :: byte ':' :: bytes m.2) := by
  have hcolon : bytes ":" = [byte ':'] := rfl
  simp only [member, bytes_append, bytes_string, hcolon, List.append_assoc, List.cons_append,
    List.nil_append]

theorem members_end (isFirst : Bool) (state : σ) (rest : List UInt8) :
    members field isFirst state (byte '\x7d' :: rest) = .ok (state, rest) := by
  have hname : nextName isFirst (byte '\x7d' :: rest) = .ok (none, rest) := rfl
  rw [members]
  split
  next h => rw [hname] at h; simp at h
  next h =>
    rw [hname, Except.ok.injEq, Prod.mk.injEq] at h
    rw [h.2]
  next h => rw [hname] at h; simp at h

theorem members_cons {isFirst : Bool} {state next : σ} {s rest after last : List UInt8}
    {name : String} {reader : Reader σ} (hname : nextName isFirst s = .ok (some name, rest))
    (hfield : field state name = .ok reader) (hcolon : readColon rest = .ok after)
    (hvalue : reader.run after = .ok (next, last)) :
    members field isFirst state s = members field false next last := by
  rw [members]
  split
  next h => rw [hname] at h; simp at h
  next h => rw [hname] at h; simp at h
  next name' rest' h =>
    rw [hname, Except.ok.injEq, Prod.mk.injEq, Option.some.injEq] at h
    obtain ⟨rfl, rfl⟩ := h
    rw [hfield]
    simp only
    split
    next h => rw [hcolon] at h; simp at h
    next after' h =>
      rw [hcolon, Except.ok.injEq] at h
      subst h
      split
      next h => rw [hvalue] at h; simp at h
      next next' last' h =>
        rw [hvalue, Except.ok.injEq, Prod.mk.injEq] at h
        obtain ⟨rfl, rfl⟩ := h
        rfl

theorem nextName_first (m : Member) (rest : List UInt8) :
    nextName true (bytes (member m) ++ rest) =
      .ok (some m.1, byte ':' :: (bytes m.2 ++ rest)) := by
  have hquote : isSpace (byte '"') = false := by decide
  have hclosing : byte '"' ≠ byte '\x7d' := by decide
  rw [bytes_member]
  simp only [List.cons_append, List.append_assoc, nextName, skipSpace_cons hquote, if_neg hclosing,
    if_true, readString_escapes, Except.map]

theorem nextName_comma (m : Member) (rest : List UInt8) :
    nextName false (byte ',' :: (bytes (member m) ++ rest)) =
      .ok (some m.1, byte ':' :: (bytes m.2 ++ rest)) := by
  have hquote : isSpace (byte '"') = false := by decide
  have hcomma : isSpace (byte ',') = false := by decide
  have hclosing : byte ',' ≠ byte '\x7d' := by decide
  rw [bytes_member]
  simp only [List.cons_append, List.append_assoc, nextName, skipSpace_cons hquote,
    skipSpace_cons hcomma, if_neg hclosing, Bool.false_eq_true, if_false, if_true,
    readString_escapes, Except.map]

theorem readColon_colon (rest : List UInt8) : readColon (byte ':' :: rest) = .ok rest := rfl

theorem members_listed {state last : σ} {ms : List Member} (hleads : Leads field state ms last)
    (rest : List UInt8) :
    members field false state (listed (ms.map member) ++ byte '\x7d' :: rest) =
      .ok (last, rest) := by
  induction hleads with
  | nil state => exact members_end false state rest
  | @cons state next last name text more reader hfield htext _ ih =>
      have hends := endsValue_listed (more.map member) (byte '\x7d') (.inr rfl) rest
      have hname := nextName_comma (name, text) (listed (more.map member) ++ byte '\x7d' :: rest)
      have hsplit : listed (((name, text) :: more).map member) ++ byte '\x7d' :: rest =
          byte ',' :: (bytes (member (name, text)) ++
            (listed (more.map member) ++ byte '\x7d' :: rest)) := by
        simp only [listed, List.map_cons, List.flatMap_cons, List.append_assoc, List.cons_append]
      rw [hsplit, members_cons hname hfield (readColon_colon _) (htext _ hends)]
      exact ih

theorem bytes_object (ms : List Member) :
    bytes (object ms) =
      byte '\x7b' :: (bytes (String.intercalate "," (ms.map member)) ++ [byte '\x7d']) := by
  have hopening : bytes "\x7b" = [byte '\x7b'] := rfl
  have hclosing : bytes "\x7d" = [byte '\x7d'] := rfl
  rw [object, bytes_append, bytes_append, hopening, hclosing]
  rfl

/-- Reading a written object leads where its members lead. -/
theorem members_object {state last : σ} {ms : List Member} (hleads : Leads field state ms last)
    (rest : List UInt8) :
    members field true state
        (bytes (String.intercalate "," (ms.map member)) ++ byte '\x7d' :: rest) =
      .ok (last, rest) := by
  cases hleads with
  | nil => exact members_end true state rest
  | @cons _ next _ name text more reader hfield htext hmore =>
      have hends := endsValue_listed (more.map member) (byte '\x7d') (.inr rfl) rest
      have hname := nextName_first (name, text) (listed (more.map member) ++ byte '\x7d' :: rest)
      rw [List.map_cons, bytes_intercalate, List.append_assoc,
        members_cons hname hfield (readColon_colon _) (htext _ hends)]
      exact members_listed hmore rest

/-! ## Tables -/

theorem leads_entries {value : Reader α} {write : α → String}
    (hvalue : ∀ v, value.Takes (write v) v) (entries : List (String × α)) (table : Table α) :
    Leads (fun (table : Table α) name => .ok (value.map (table.set name))) table
      (entries.map fun entry => (entry.1, write entry.2)) (table.insertAll entries) := by
  induction entries generalizing table with
  | nil => exact .nil table
  | cons entry entries ih =>
      exact .cons rfl ((hvalue entry.2).map (table.set entry.1)) (ih (table.insert entry))

/-- A table is read back from an object of its entries in any order. -/
theorem takes_table {value : Reader α} {write : α → String}
    (hvalue : ∀ v, value.Takes (write v) v) (entries : Table α) {ms : List Member}
    (hms : ms.Perm (entries.toList.map fun entry => (entry.1, write entry.2))) :
    (table value).Takes (object ms) entries := by
  intro rest _
  -- A permutation of written entries is the writing of permuted entries.
  let write' : String × α → Member := fun entry => (entry.1, write entry.2)
  have hcomp : Relation.Comp (fun ms list => ms = List.map write' list) List.Perm ms
      entries.toList := by
    rw [List.eq_map_comp_perm]
    exact hms
  obtain ⟨list, rfl, hlist⟩ := hcomp
  have hleads := leads_entries hvalue list ∅
  rw [bytes_object, List.cons_append, run_cons rfl (by decide), if_pos rfl, List.append_assoc,
    List.singleton_append, members_object hleads]
  exact congrArg (fun table => Except.ok (table, rest)) (Ascending.ofList_of_perm hlist)

/-! ## Members that do not depend on each other -/

/-- The members of some names have been given. -/
abbrev Given := String → Bool

/-- The members given once one more is. -/
def Given.add (given : Given) (name : String) : Given :=
  fun other => other == name || given other

/-- Where each member adds its value whichever other members have been given, members with different
names can come in any order. -/
theorem leads_of_nodup {state : Given → σ} {ms : List Member}
    (hstep : ∀ m ∈ ms, ∀ given : Given, given m.1 = false → ∃ reader : Reader σ,
      field (state given) m.1 = .ok reader ∧ reader.Takes m.2 (state (given.add m.1)))
    (hnodup : (ms.map Prod.fst).Nodup) (given : Given) (hnew : ∀ m ∈ ms, given m.1 = false) :
    Leads field (state given) ms (state ((ms.map Prod.fst).foldl Given.add given)) := by
  induction ms generalizing given with
  | nil => exact .nil _
  | cons m ms ih =>
      obtain ⟨reader, hfield, htext⟩ := hstep m List.mem_cons_self given
        (hnew m List.mem_cons_self)
      rw [List.map_cons, List.nodup_cons] at hnodup
      refine .cons hfield htext
        (ih (fun other hother => hstep other (List.mem_cons_of_mem _ hother))
          hnodup.2 _ fun other hother => ?_)
      -- The members that follow have other names, so none of them has been given yet.
      have hne : other.1 ≠ m.1 := by
        intro heq
        exact hnodup.1 (heq ▸ List.mem_map_of_mem hother)
      simp only [Given.add, beq_eq_false_iff_ne.mpr hne, Bool.false_or]
      exact hnew other (List.mem_cons_of_mem _ hother)

theorem foldl_add (names : List String) (given : Given) (name : String) :
    names.foldl Given.add given name = (names.contains name || given name) := by
  induction names generalizing given with
  | nil => rfl
  | cons head names ih =>
      rw [List.foldl_cons, ih, Given.add, List.contains_cons]
      cases names.contains name <;> cases name == head <;> rfl

end Reader

/-! ## Records -/

/-- A member of a record is taken if its reader sets what the draft lacks. -/
theorem Record.exists_reader {α σ : Type} {record : Record σ} {draft next : σ}
    {name text : String} {reader : Reader α} {value : α} {set : α → σ} {isGiven : Bool}
    (hmember : record.member draft name =
      if isGiven then .error (.duplicateMember name) else .ok (reader.map set))
    (hnew : isGiven = false) (htext : reader.Takes text value) (hset : set value = next) :
    ∃ reader : Reader σ, record.member draft name = .ok reader ∧ reader.Takes text next := by
  refine ⟨reader.map set, ?_, hset ▸ htext.map set⟩
  rw [hmember, hnew]
  rfl

/-- A record is read back from an object whose members lead to a complete draft. -/
theorem Record.takes_object {σ : Type} {record : Record σ} {draft : σ} {ms : List Member}
    (hleads : Reader.Leads record.member record.start ms draft)
    (hcomplete : record.complete draft = .ok draft) : record.reader.Takes (object ms) draft := by
  intro rest _
  rw [Reader.bytes_object, List.cons_append, Reader.run_cons rfl (by decide), List.append_assoc,
    List.singleton_append, Record.afterFirst, if_neg (by decide), if_pos rfl, Record.ofObject,
    Reader.members_object hleads]
  simp only [hcomplete]
  rfl

/-- A record is read back from an object of its members in any order, if each member adds its value
independently of the others and all of them together complete the draft. -/
theorem Record.takes_perm {σ β : Type} {record : Record σ} {finish : σ → Except ReadError β}
    {value : β} {state : Reader.Given → σ} {written ms : List Member}
    (hstart : state (fun _ => false) = record.start)
    (hstep : ∀ m ∈ written, ∀ given : Reader.Given, given m.1 = false →
      ∃ reader : Reader σ, record.member (state given) m.1 = .ok reader ∧
        reader.Takes m.2 (state (given.add m.1)))
    (hnodup : (written.map Prod.fst).Nodup)
    (hcomplete : ∀ given : Reader.Given, (∀ name ∈ written.map Prod.fst, given name = true) →
      record.complete (state given) = .ok (state given) ∧ finish (state given) = .ok value)
    (hms : ms.Perm written) : (record.reader.check finish).Takes (object ms) value := by
  have hnames : (ms.map Prod.fst).Perm (written.map Prod.fst) := hms.map Prod.fst
  have hleads := Reader.leads_of_nodup (fun m hm => hstep m (hms.mem_iff.mp hm))
    (hnames.nodup_iff.mpr hnodup) (fun _ => false) fun _ _ => rfl
  have hall : ∀ name ∈ written.map Prod.fst,
      (ms.map Prod.fst).foldl Reader.Given.add (fun _ => false) name = true := by
    intro name hname
    rw [Reader.foldl_add, Bool.or_false, List.contains_iff_mem]
    exact hnames.mem_iff.mpr hname
  obtain ⟨hdraft, hvalue⟩ := hcomplete _ hall
  rw [hstart] at hleads
  exact (Record.takes_object hleads hdraft).check hvalue

end Entitlement.Json
