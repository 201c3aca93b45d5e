import Entitlement.Proofs.Json.Meaning
import Entitlement.Proofs.Json.Members
import Entitlement.Proofs.Json.Spelling

/-! # What is written is a document

The writers keep to the grammar: strings, numbers, truth values and all that is made up of them
spell trees, and the strings among them have the texts that were written. Together with the fact
that a text spells at most one tree this tells what a written document holds, whoever reads it.
-/

namespace Entitlement.Json

open Reader Text

/-- A text is written for a tree. -/
def IsWritten (tree : Tree) (text : String) : Prop :=
  Spelling (.value tree) (bytes text)

/-! ## Strings -/

/-- What is written between the quotes of a string. -/
def bodyOf (s : String) : List UInt8 :=
  bytes (String.ofList (s.toList.flatMap escape))

theorem IsBody.append {front back : List UInt8} (hfront : IsBody front) (hback : IsBody back) :
    IsBody (front ++ back) := by
  induction hfront with
  | nil => exact hback
  | plain hb _ ih => exact .plain hb ih
  | letter hb _ ih => exact .letter hb ih
  | unit ha hb hc hd _ ih => exact .unit ha hb hc hd ih

theorem mem_escapeLetters {b : UInt8} {c : Char} (hshort : shortEscape? b = some c) :
    b ∈ escapeLetters := by
  by_contra hother
  simp only [escapeLetters, List.mem_cons, List.not_mem_nil, or_false, not_or] at hother
  simp [shortEscape?, hother] at hshort

theorem isHexDigit_hexDigit : ∀ value < 16, IsHexDigit (hexDigit value).toUInt8 := by
  unfold IsHexDigit Text.IsDigit
  decide

/-- A character is spelled as the grammar wants it. -/
theorem isBody_escape (c : Char) : IsBody ((escape c).flatMap String.utf8EncodeChar) := by
  rcases escape_cases c with ⟨letter, hletter, hescape, hvalue⟩ | ⟨hcontrol, hescape⟩ |
    ⟨hquote, hbackslash, hcontrol, hescape⟩
  · rw [hescape, List.flatMap_cons, List.flatMap_singleton, utf8EncodeChar_of_isAscii hletter,
      utf8EncodeChar_of_isAscii (by decide)]
    exact .letter (mem_escapeLetters hvalue) .nil
  · have hhigh := isAscii_hexDigit (c.toNat / 16) (by omega)
    have hlow := isAscii_hexDigit (c.toNat % 16) (by omega)
    have hzero := isHexDigit_hexDigit 0 (by decide)
    simp only [hescape, List.flatMap_cons, List.flatMap_nil, utf8EncodeChar_of_isAscii hhigh,
      utf8EncodeChar_of_isAscii hlow, utf8EncodeChar_of_isAscii (show IsAscii '\\' by decide),
      utf8EncodeChar_of_isAscii (show IsAscii 'u' by decide),
      utf8EncodeChar_of_isAscii (show IsAscii '0' by decide), List.cons_append, List.nil_append]
    exact .unit hzero hzero (isHexDigit_hexDigit _ (by omega))
      (isHexDigit_hexDigit _ (by omega)) .nil
  · rw [hescape, List.flatMap_singleton]
    apply isBody_of_isPlain
    apply List.all_eq_true.mpr
    intro b hb
    exact decide_eq_true (isPlain_of_mem_utf8EncodeChar hquote hbackslash hcontrol hb)

theorem isBody_bodyOf (s : String) : IsBody (bodyOf s) := by
  rw [bodyOf, bytes_ofList]
  induction s.toList with
  | nil => exact .nil
  | cons c cs ih =>
      rw [List.flatMap_cons, List.flatMap_append]
      exact (isBody_escape c).append ih

@[simp] theorem textOf_bodyOf (s : String) : textOf (bodyOf s) = some s := by
  rw [textOf, bodyOf, readString_escapes]
  rfl

theorem isWritten_string (s : String) : IsWritten (.string (bodyOf s)) (string s) := by
  rw [IsWritten, bytes_string]
  exact .string (isBody_bodyOf s)

/-! ## Truth values and numbers -/

theorem isWritten_bool (value : Bool) : IsWritten (.truth value) (bool value) := by
  cases value
  · exact .false
  · exact .true

theorem isWritten_nat (n : Nat) : IsWritten (.number (bytes (nat n))) (nat n) := by
  have hdigits : IsDigits (bytes (nat n)) := by
    refine ⟨?_, (denotes_toString n).1⟩
    rw [bytes_nat, Ne, List.map_eq_nil_iff]
    exact Nat.toDigits_ne_nil
  have hwhole : IsUnsigned (bytes (nat n) ++ ([] ++ [])) :=
    .parts ⟨hdigits, fun _ hzero => nat_no_leading_zero hzero⟩ .none .none
  rw [List.append_nil, List.append_nil] at hwhole
  exact .number (.unsigned hwhole)

/-! ## Arrays -/

theorem isBlank_nil : IsBlank [] :=
  fun _ hb => absurd hb List.not_mem_nil

theorem spelling_listed_elements {trees : List Tree} {values : List String}
    (hvalues : List.Forall₂ IsWritten trees values) :
    Spelling (.elements trees) (listed values ++ [byte ']']) := by
  induction hvalues with
  | nil => exact .endOfArray isBlank_nil
  | @cons tree value trees values hvalue _ ih =>
      have hsplit : listed (value :: values) ++ [byte ']'] =
          [] ++ byte ',' :: ([] ++ (bytes value ++ (listed values ++ [byte ']']))) := by
        simp [listed]
      rw [hsplit]
      exact .element isBlank_nil isBlank_nil hvalue ih

theorem isWritten_array {trees : List Tree} {values : List String}
    (hvalues : List.Forall₂ IsWritten trees values) :
    IsWritten (.array trees) (array values) := by
  rw [IsWritten, bytes_array]
  cases hvalues with
  | nil => exact .emptyArray isBlank_nil
  | cons hvalue hmore =>
      rw [bytes_intercalate, List.append_assoc, ← List.nil_append (bytes _ ++ _)]
      exact .array isBlank_nil hvalue (spelling_listed_elements hmore)

/-! ## Objects -/

/-- A member is written for a name and a tree. -/
def WritesMember (named : String × Tree) (m : Member) : Prop :=
  named.1 = m.1 ∧ IsWritten named.2 m.2

/-- The name of a member as it is written, with its value. -/
def writtenMember (named : String × Tree) : List UInt8 × Tree :=
  (bodyOf named.1, named.2)

theorem WritesMember.spelling {named : String × Tree} {m : Member} (hm : WritesMember named m) :
    Spelling (.member (bodyOf named.1) named.2) (bytes (member m)) := by
  have hsplit : bytes (member m) =
      byte '"' :: (bodyOf named.1 ++ byte '"' :: ([] ++ byte ':' :: ([] ++ bytes m.2))) := by
    rw [bytes_member, bodyOf, hm.1]
    rfl
  rw [hsplit]
  exact .member (isBody_bodyOf _) isBlank_nil isBlank_nil hm.2

theorem spelling_listed_members {named : List (String × Tree)} {ms : List Member}
    (hms : List.Forall₂ WritesMember named ms) :
    Spelling (.members (named.map writtenMember)) (listed (ms.map member) ++ [byte '\x7d']) := by
  induction hms with
  | nil => exact .endOfObject isBlank_nil
  | @cons first m named ms hm _ ih =>
      have hsplit : listed ((m :: ms).map member) ++ [byte '\x7d'] =
          [] ++ byte ',' ::
            ([] ++ (bytes (member m) ++ (listed (ms.map member) ++ [byte '\x7d']))) := by
        simp [listed]
      rw [hsplit]
      exact .nextMember isBlank_nil isBlank_nil hm.spelling ih

theorem isWritten_object {named : List (String × Tree)} {ms : List Member}
    (hms : List.Forall₂ WritesMember named ms) :
    IsWritten (.object (named.map writtenMember)) (object ms) := by
  rw [IsWritten, bytes_object]
  cases hms with
  | nil => exact .emptyObject isBlank_nil
  | cons hm hmore =>
      rw [List.map_cons, List.map_cons, bytes_intercalate, List.append_assoc,
        ← List.nil_append (bytes _ ++ _)]
      exact .object isBlank_nil hm.spelling (spelling_listed_members hmore)

/-- What is written is a document. -/
theorem IsWritten.isDocument {tree : Tree} {text : String} (htext : IsWritten tree text) :
    IsDocument tree (bytes text) :=
  ⟨[], bytes text, [], isBlank_nil, htext, isBlank_nil, by simp⟩

/-! ## Lists of names -/

/-- A document is an object that has one member of some name, and the member is an array of strings
that have some texts. -/
def HoldsNames (document name : String) (names : List String) : Prop :=
  ∃ (ms : List (List UInt8 × Tree)) (bodies : List (List UInt8)),
    IsDocument (.object ms) (bytes document) ∧
    (ms.filter fun m => textOf m.1 = some name).map Prod.snd = [.array (bodies.map .string)] ∧
      bodies.map textOf = names.map some

/-- A document holds at most one list of names under a name. -/
theorem HoldsNames.eq {document name : String} {names other : List String}
    (hnames : HoldsNames document name names) (hother : HoldsNames document name other) :
    other = names := by
  obtain ⟨ms, bodies, hdocument, hmember, htexts⟩ := hnames
  obtain ⟨ms', bodies', hdocument', hmember', htexts'⟩ := hother
  cases hdocument.tree_eq hdocument'
  rw [hmember, List.cons.injEq, Tree.array.injEq] at hmember'
  have hstring : Function.Injective Tree.string := fun a b heq => Tree.string.inj heq
  have hsome : Function.Injective (some : String → Option String) := Option.some_injective _
  rw [hstring.list_map hmember'.1] at htexts
  exact hsome.list_map (htexts'.symm.trans htexts)

end Entitlement.Json
