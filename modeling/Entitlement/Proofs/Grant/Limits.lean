import Entitlement.Proofs.Grant.Ambiguity
import Entitlement.Proofs.Grant.Claims
import Entitlement.Proofs.Json.Written
import Entitlement.Proofs.Plan.Writes

/-! # Limits and their documents

A document gives ceilings one after the other, as whoever sets them does, and may come back to a
name. The document that is written for limits comes back to none: it gives their entries in their
order, however large the ceilings are, and is read to the same limits. So it makes no difference
whether limits start empty, with the ceilings of Community or from a document: they are the last
ceiling of each name.
-/

namespace Entitlement.Grant

open Json Plan

namespace Claims

/-! ## The document of limits -/

/-- Limits as a tree. -/
def limitsTree (limits : Limits) : Tree :=
  .object ((limits.entries.map fun entry =>
    (entry.1, .number (Text.bytes (nat entry.2.toNat)))).map writtenMember)

theorem isWritten_entries (entries : List (String × UInt64)) :
    IsWritten
      (.object ((entries.map fun entry =>
        (entry.1, .number (Text.bytes (nat entry.2.toNat)))).map writtenMember))
      (object (entries.map fun entry => (entry.1, nat entry.2.toNat))) := by
  apply isWritten_object
  rw [List.forall₂_map_left_iff, List.forall₂_map_right_iff, List.forall₂_same]
  exact fun entry _ => ⟨rfl, isWritten_nat _⟩

theorem isWritten_limits (limits : Limits) :
    IsWritten (limitsTree limits) (writeLimits (fun members => members) limits) :=
  isWritten_entries limits.entries

/-- Every word has the digits that are written for it. -/
theorem word64?_nat (word : UInt64) :
    Tree.word64? (.number (Text.bytes (nat word.toNat))) = some word := by
  have hread := (Reader.reads_word64 _).read (isWritten_nat word.toNat).isDocument
  rw [(Reader.takes_word64 word).read] at hread
  exact hread.symm

theorem entryOf_writtenMember (entry : String × UInt64) :
    Reader.entryOf Tree.word64?
      (writtenMember (entry.1, .number (Text.bytes (nat entry.2.toNat)))) = some entry :=
  Reader.entryOf_eq_some_iff.mpr ⟨textOf_bodyOf entry.1, word64?_nat entry.2⟩

/-- An object that is written for entries gives these entries one by one, be there several for one
name or not. -/
theorem exists_members_of_entries (entries : List (String × UInt64)) :
    ∃ ms, IsDocument (.object ms)
        (Text.bytes (object (entries.map fun entry => (entry.1, nat entry.2.toNat)))) ∧
      ms.mapM (Reader.entryOf Tree.word64?) = some entries := by
  refine ⟨_, (isWritten_entries entries).isDocument, ?_⟩
  rw [List.map_map]
  exact mapM_map_eq_some entryOf_writtenMember entries

/-- Limits that are read from an object hold what its members give last. -/
theorem holds_of_read {ms : List (List UInt8 × Tree)} {document : List UInt8} {limits : Limits}
    (hdocument : IsDocument (.object ms) document)
    (hread : limitsReader.read document = .ok limits) :
    limits.Holds (ms.filterMap (Reader.entryOf Tree.word64?)) := by
  have hlimits := (reads_limits (.object ms)).read hdocument
  rw [hread] at hlimits
  obtain ⟨table, htable, rfl⟩ := Option.map_eq_some_iff.mp hlimits.symm
  obtain ⟨entries, hentries, rfl⟩ := Option.map_eq_some_iff.mp htable
  have hset : Limits.empty.setAll entries = ⟨Ascending.ofList entries⟩ := Limits.setAll_eq _ entries
  rw [filterMap_of_mapM hentries, ← hset]
  exact Limits.holds_empty.setAll entries

end Claims

/-! ## Limits that are set -/

/-- What limits start from, and the ceilings that this gives them one after the other. A document
gives those of its members; none is left out, since a document with a member that gives none is not
read. -/
inductive StartsWith : Limits → List (String × UInt64) → Prop where
  | empty : StartsWith .empty []
  | community : StartsWith .community Limits.communityWrites
  | document {ms : List (List UInt8 × Tree)} {document : List UInt8} {limits : Limits}
      (hdocument : IsDocument (.object ms) document)
      (hread : Claims.limitsReader.read document = .ok limits) :
      StartsWith limits (ms.filterMap (Reader.entryOf Tree.word64?))

theorem StartsWith.holds {start : Limits} {given : List (String × UInt64)}
    (hstart : StartsWith start given) : start.Holds given := by
  cases hstart with
  | empty => exact Limits.holds_empty
  | community => exact Limits.holds_community
  | document hdocument hread => exact Claims.holds_of_read hdocument hread

/-- Limits have the last ceiling of each name and no other, whatever they start from and however
many ceilings are set in them or in copies of them. Their entries are in the order of the bytes of
the names, and the first of them that is too large is the one that is reported. Writes to different
names can change places. The document of the limits gives the entries in their order and is read
back. -/
theorem limits_keep_last_writes {start : Limits} {given : List (String × UInt64)}
    (hstart : StartsWith start given) (writes : List (String × UInt64)) :
    let limits := start.setAll writes
    let document := Text.bytes (Claims.writeLimits (fun members => members) limits)
    (∀ name ceiling, limits.get? name = some ceiling ↔
        Limits.LastWrite (given ++ writes) name ceiling) ∧
      (∀ name, limits.get? name = none ↔ name ∉ (given ++ writes).map Prod.fst) ∧
      limits.entries.Pairwise (fun a b => Text.bytes a.1 < Text.bytes b.1) ∧
      (∀ name, name ∈ limits.entries.map Prod.fst ↔ name ∈ (given ++ writes).map Prod.fst) ∧
      (∀ name ceiling, (name, ceiling) ∈ limits.entries ↔ limits.get? name = some ceiling) ∧
      (∀ entry, limits.firstUnencodable? = some entry ↔
        ∃ before after, limits.entries = before ++ entry :: after ∧ 2 ^ 53 - 1 < entry.2.toNat ∧
          ∀ other ∈ before, other.2.toNat ≤ 2 ^ 53 - 1) ∧
      (limits.firstUnencodable? = none ↔ ∀ entry ∈ limits.entries, entry.2.toNat ≤ 2 ^ 53 - 1) ∧
      (∀ name other ceiling value, name ≠ other →
        (limits.set name ceiling).set other value = (limits.set other value).set name ceiling) ∧
      (∃ ms, IsDocument (.object ms) document ∧
        ms.mapM (Reader.entryOf Tree.word64?) = some limits.entries) ∧
      Claims.limitsReader.read document = .ok limits := by
  intro limits document
  have hholds : limits.Holds (given ++ writes) := hstart.holds.setAll writes
  refine ⟨hholds, fun _ => hholds.get?_eq_none_iff, limits.entries_pairwise,
    fun _ => hholds.mem_names_iff, fun _ _ => Limits.mem_entries_iff,
    fun _ => Limits.firstUnencodable?_eq_some_iff, Limits.firstUnencodable?_eq_none_iff,
    fun _ _ ceiling value hne => Limits.set_comm hne limits ceiling value,
    Claims.exists_members_of_entries limits.entries, ?_⟩
  exact (Claims.takes_limits Claims.isOrder_id limits).read

/-- Limits that start from a document with a name that comes twice, whose bytes are behind those of
the other name although its code units are in front. -/
theorem limits_keep_last_writes_repeated :
    let start := (Limits.empty.set "｡" 9007199254740992).set "😀" 3
    let limits := start.setAll [("😀", 9007199254740993), ("b", 0), ("😀", 7)]
    Claims.limitsReader.read
        (Text.bytes "\x7b\"😀\":1,\"｡\":9007199254740992,\"😀\":3\x7d") = .ok start ∧
      StartsWith start [("😀", 1), ("｡", 9007199254740992), ("😀", 3)] ∧
      limits.get? "😀" = some 7 ∧ limits.get? "c" = none ∧
      limits.firstUnencodable? = some ("｡", 9007199254740992) ∧
      Claims.limitsReader.read
        (Text.bytes (Claims.writeLimits (fun members => members) limits)) = .ok limits := by
  intro start limits
  have hread : Claims.limitsReader.read
      (Text.bytes "\x7b\"😀\":1,\"｡\":9007199254740992,\"😀\":3\x7d") = .ok start := by
    decide +kernel
  have hstart : StartsWith start [("😀", 1), ("｡", 9007199254740992), ("😀", 3)] := by
    obtain ⟨ms, hdocument, hms⟩ :=
      Claims.exists_members_of_entries [("😀", 1), ("｡", 9007199254740992), ("😀", 3)]
    rw [← filterMap_of_mapM hms]
    exact .document hdocument hread
  obtain ⟨hget, hnone, -, -, -, hfirst, -, -, -, hwritten⟩ :=
    limits_keep_last_writes hstart [("😀", 9007199254740993), ("b", 0), ("😀", 7)]
  have hlast : Limits.LastWrite ([("😀", 1), ("｡", 9007199254740992), ("😀", 3)] ++
      [("😀", 9007199254740993), ("b", 0), ("😀", 7)]) "😀" 7 :=
    ⟨[("😀", 1), ("｡", 9007199254740992), ("😀", 3), ("😀", 9007199254740993), ("b", 0)], [], rfl,
      List.forall_mem_nil _⟩
  have hlisted : limits.entries = [("b", 0)] ++ ("｡", 9007199254740992) :: [("😀", 7)] := by
    decide +kernel
  exact ⟨hread, hstart, (hget _ _).mpr hlast, (hnone _).mpr (by decide),
    (hfirst _).mpr ⟨_, _, hlisted, by decide, by decide⟩, hwritten⟩

end Entitlement.Grant
