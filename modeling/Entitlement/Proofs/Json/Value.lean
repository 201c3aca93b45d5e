import Mathlib.Data.List.Perm.Basic
import Entitlement.Proofs.Json.Canonical
import Entitlement.Proofs.Json.Text

/-! # The canonical form of values

The canonical form of a value is described here by its grammar alone, without regard to how
documents are written: there are no blanks, a character is escaped only if it has to be and then in
the shortest way, a number is a run of digits, and members ascend by the code units of their names.
What the writers write is shown to be of this form, and no value has a second one.
-/

namespace Entitlement.Json

open Text

/-- A value; the members of a record are in no particular order. -/
inductive Value where
  | text (s : String)
  | number (n : Nat)
  | list (values : List Value)
  | record (members : List (String × Value))

/-! ## The form -/

/-- The small hexadecimal digits by their values. -/
def hexDigits : List Char :=
  ['0', '1', '2', '3', '4', '5', '6', '7', '8', '9', 'a', 'b', 'c', 'd', 'e', 'f']

/-- The characters below the blank that have an escape of their own. -/
def shortEscaped : List Char :=
  ['\x08', '\t', '\n', '\x0c', '\r']

/-- How a character is spelled inside a string. -/
inductive Spells : Char → List Char → Prop where
  | quote : Spells '"' ['\\', '"']
  | backslash : Spells '\\' ['\\', '\\']
  | backspace : Spells '\x08' ['\\', 'b']
  | tab : Spells '\t' ['\\', 't']
  | newline : Spells '\n' ['\\', 'n']
  | formFeed : Spells '\x0c' ['\\', 'f']
  | carriageReturn : Spells '\r' ['\\', 'r']
  | control {c high low : Char} (hcontrol : c.toNat < 0x20) (hother : c ∉ shortEscaped)
      (hhigh : hexDigits[c.toNat / 16]? = some high) (hlow : hexDigits[c.toNat % 16]? = some low) :
      Spells c ['\\', 'u', '0', '0', high, low]
  | plain {c : Char} (hcontrol : ¬ c.toNat < 0x20) (hquote : c ≠ '"') (hbackslash : c ≠ '\\') :
      Spells c [c]

/-- A string in its quotes, with every character spelled as it has to be. -/
def Quoted (s written : String) : Prop :=
  ∃ spelled, List.Forall₂ Spells s.toList spelled ∧
    written = "\"" ++ String.ofList spelled.flatten ++ "\""

/-- A number in plain decimal digits, with no zero in front. -/
structure Decimal (n : Nat) (written : String) : Prop where
  denotes : Denotes (bytes written) n
  nonempty : bytes written ≠ []
  zero : ∀ more, bytes written = byte '0' :: more → more = []

/-- The canonical form of a value. -/
inductive Canonical : Value → String → Prop where
  | text {s written : String} (hwritten : Quoted s written) : Canonical (.text s) written
  | number {n : Nat} {written : String} (hwritten : Decimal n written) :
      Canonical (.number n) written
  | list {values : List Value} {written : List String}
      (hwritten : List.Forall₂ Canonical values written) :
      Canonical (.list values) ("[" ++ String.intercalate "," written ++ "]")
  | record {members ordered : List (String × Value)} {names values : List String}
      (hordered : ordered.Perm members)
      (hascending : ordered.Pairwise fun a b => units a.1 < units b.1)
      (hnames : List.Forall₂ Quoted (ordered.map Prod.fst) names)
      (hvalues : List.Forall₂ Canonical (ordered.map Prod.snd) values) :
      Canonical (.record members)
        ("\x7b" ++ String.intercalate ","
          (List.zipWith (fun name value => name ++ ":" ++ value) names values) ++ "\x7d")

/-! ## What is written is of the form -/

theorem getElem?_hexDigits : ∀ value < 16, hexDigits[value]? = some (hexDigit value) := by
  decide

theorem spells_escape (c : Char) : Spells c (escape c) := by
  unfold escape
  split
  next h => rw [h]; exact .quote
  next hquote =>
    split
    next h => rw [h]; exact .backslash
    next hbackslash =>
      split
      next h => rw [h]; exact .backspace
      next hbackspace =>
        split
        next h => rw [h]; exact .tab
        next htab =>
          split
          next h => rw [h]; exact .newline
          next hnewline =>
            split
            next h => rw [h]; exact .formFeed
            next hformFeed =>
              split
              next h => rw [h]; exact .carriageReturn
              next hcarriageReturn =>
                split
                next hcontrol =>
                  refine .control hcontrol ?_ (getElem?_hexDigits _ (by omega))
                    (getElem?_hexDigits _ (by omega))
                  simp [shortEscaped, hbackspace, htab, hnewline, hformFeed, hcarriageReturn]
                next hcontrol => exact .plain hcontrol hquote hbackslash

theorem quoted_string (s : String) : Quoted s (string s) := by
  refine ⟨s.toList.map escape, ?_, ?_⟩
  · rw [List.forall₂_map_right_iff, List.forall₂_same]
    exact fun c _ => spells_escape c
  · rw [string, List.flatMap_def]

theorem canonical_string (s : String) : Canonical (.text s) (string s) :=
  .text (quoted_string s)

theorem canonical_nat (n : Nat) : Canonical (.number n) (nat n) := by
  refine .number ⟨denotes_toString n, ?_, fun more hdigits => nat_no_leading_zero hdigits⟩
  rw [bytes_nat, Ne, List.map_eq_nil_iff]
  exact Nat.toDigits_ne_nil

theorem canonical_array {values : List Value} {written : List String}
    (hwritten : List.Forall₂ Canonical values written) :
    Canonical (.list values) (array written) :=
  .list hwritten

/-- A written member has the name of a member and the canonical form of its value. -/
def Writes (m : String × Value) (written : Member) : Prop :=
  m.1 = written.1 ∧ Canonical m.2 written.2

theorem canonical_object {members : List (String × Value)} {ms : List Member}
    (hwritten : List.Forall₂ Writes members ms) (hnames : ms.Pairwise fun a b => a.1 ≠ b.1) :
    Canonical (.record members) (object (canonicalOrder ms)) := by
  -- The members are put in the order in which they are written.
  obtain ⟨ordered, hordered, hperm⟩ := List.perm_comp_forall₂ (canonicalOrder_perm ms)
    (List.Forall₂.flip hwritten)
  have hpairs : List.Forall₂ Writes ordered (canonicalOrder ms) := hordered.flip
  have hsame : ordered.map Prod.fst = (canonicalOrder ms).map Prod.fst := by
    rw [← List.forall₂_eq_eq_eq, List.forall₂_map_left_iff, List.forall₂_map_right_iff]
    exact hpairs.imp fun _ _ hwrites => hwrites.1
  have htext : (canonicalOrder ms).map member =
      List.zipWith (fun name value => name ++ ":" ++ value)
        ((canonicalOrder ms).map fun m => string m.1) ((canonicalOrder ms).map Prod.snd) := by
    rw [List.zipWith_map, List.zipWith_self]
    rfl
  rw [object, htext]
  refine .record hperm ?_ ?_ ?_
  · have hascending := canonicalOrder_ascending hnames
    rw [← List.pairwise_map (f := Prod.fst) (R := fun a b => units a < units b)] at hascending ⊢
    rw [hsame]
    exact hascending
  · rw [hsame, List.forall₂_map_left_iff, List.forall₂_map_right_iff, List.forall₂_same]
    exact fun m _ => quoted_string m.1
  · rw [List.forall₂_map_left_iff, List.forall₂_map_right_iff]
    exact hpairs.imp fun _ _ hwrites => hwrites.2

/-! ## There is one form -/

theorem Spells.eq_escape {c : Char} {spelled : List Char} (hspells : Spells c spelled) :
    spelled = escape c := by
  cases hspells with
  | control hcontrol hother hhigh hlow =>
      rw [getElem?_hexDigits _ (by omega)] at hhigh hlow
      cases hhigh
      cases hlow
      simp only [shortEscaped, List.mem_cons, List.not_mem_nil, or_false, not_or] at hother
      obtain ⟨hbackspace, htab, hnewline, hformFeed, hcarriageReturn⟩ := hother
      have hquote : c ≠ '"' := by
        rintro rfl
        exact absurd hcontrol (by decide)
      have hbackslash : c ≠ '\\' := by
        rintro rfl
        exact absurd hcontrol (by decide)
      rw [escape, if_neg hquote, if_neg hbackslash, if_neg hbackspace, if_neg htab,
        if_neg hnewline, if_neg hformFeed, if_neg hcarriageReturn, if_pos hcontrol]
  | plain hcontrol hquote hbackslash =>
      have hother : ∀ d : Char, d.toNat < 0x20 → c ≠ d := by
        rintro d hd rfl
        exact hcontrol hd
      rw [escape, if_neg hquote, if_neg hbackslash, if_neg (hother _ (by decide)),
        if_neg (hother _ (by decide)), if_neg (hother _ (by decide)),
        if_neg (hother _ (by decide)), if_neg (hother _ (by decide)), if_neg hcontrol]
  | _ => rfl

theorem forall₂_unique {α β : Type} {r : α → β → Prop} {xs : List α} {ys zs : List β}
    (hunique : ∀ x ∈ xs, ∀ y z, r x y → r x z → y = z) (hys : List.Forall₂ r xs ys)
    (hzs : List.Forall₂ r xs zs) : ys = zs := by
  induction hys generalizing zs with
  | nil =>
      cases hzs
      rfl
  | cons hy _ ih =>
      cases hzs with
      | cons hz hzs =>
          obtain ⟨hfirst, hmore⟩ := List.forall_mem_cons.mp hunique
          rw [hfirst _ _ hy hz, ih hmore hzs]

theorem Quoted.unique {s a b : String} (ha : Quoted s a) (hb : Quoted s b) : a = b := by
  obtain ⟨as, has, rfl⟩ := ha
  obtain ⟨bs, hbs, rfl⟩ := hb
  have hsame : as = bs := by
    refine forall₂_unique ?_ has hbs
    intro c _ spelled spelled' h h'
    rw [h.eq_escape, h'.eq_escape]
  rw [hsame]

/-- Without zeros in front, the length of a run of digits is determined by its value. -/
theorem Decimal.length_le {n : Nat} {a b : String} (ha : Decimal n a) (hb : Decimal n b) :
    (bytes a).length ≤ (bytes b).length := by
  obtain ⟨⟨hdigits, hvalue⟩, hnonempty, hzero⟩ := ha
  obtain ⟨⟨hdigits', hvalue'⟩, hnonempty', -⟩ := hb
  obtain ⟨d, ds, hds⟩ := List.exists_cons_of_ne_nil hnonempty
  have hpos := List.length_pos_iff.mpr hnonempty'
  by_cases hfirst : d = byte '0'
  · subst hfirst
    rw [hds, hzero ds hds]
    exact hpos
  · rw [hds] at hdigits hvalue
    have hle := pow_le_digitValue (hdigits d List.mem_cons_self) hfirst ds
    have hlt := digitValue_lt hdigits'
    rw [hvalue] at hle
    rw [hvalue'] at hlt
    rw [hds]
    exact (Nat.pow_lt_pow_iff_right (by decide)).mp (Nat.lt_of_le_of_lt hle hlt)

theorem Decimal.unique {n : Nat} {a b : String} (ha : Decimal n a) (hb : Decimal n b) : a = b := by
  have hlength : (bytes a).length = (bytes b).length :=
    Nat.le_antisymm (ha.length_le hb) (hb.length_le ha)
  have hbytes : bytes a = bytes b :=
    digits_unique ha.denotes.isDigit hb.denotes.isDigit hlength
      (ha.denotes.value_eq.trans hb.denotes.value_eq.symm)
  exact bytes_inj.mp hbytes

/-- A value has one canonical form, in whatever order its members are given. -/
theorem Canonical.unique : ∀ {value : Value} {a b : String}, Canonical value a →
    Canonical value b → a = b
  | .text _, _, _, .text hwritten, .text hwritten' => hwritten.unique hwritten'
  | .number _, _, _, .number hwritten, .number hwritten' => hwritten.unique hwritten'
  | .list values, _, _, .list hwritten, .list hwritten' => by
      refine congrArg (fun written => "[" ++ String.intercalate "," written ++ "]")
        (forall₂_unique ?_ hwritten hwritten')
      intro value hvalue a b ha hb
      have hsmaller : sizeOf value < sizeOf (Value.list values) := by
        have hmember := List.sizeOf_lt_of_mem hvalue
        rw [Value.list.sizeOf_spec]
        omega
      exact Canonical.unique ha hb
  | .record members, _, _, .record hordered hascending hnames hvalues,
      .record hordered' hascending' hnames' hvalues' => by
      have hsame := (hordered.trans hordered'.symm).eq_of_pairwise (fun a b _ _ hab hba =>
        absurd (List.lt_trans hab hba) (List.lt_irrefl _)) hascending hascending'
      subst hsame
      rw [forall₂_unique (fun _ _ _ _ ha hb => ha.unique hb) hnames hnames',
        forall₂_unique ?_ hvalues hvalues']
      intro value hvalue a b ha hb
      obtain ⟨m, hm, rfl⟩ := List.mem_map.mp hvalue
      have hsmaller : sizeOf m.2 < sizeOf (Value.record members) := by
        have hmember := List.sizeOf_lt_of_mem (hordered.subset hm)
        have hpair : sizeOf m = 1 + sizeOf m.1 + sizeOf m.2 := rfl
        rw [Value.record.sizeOf_spec]
        omega
      exact Canonical.unique ha hb
termination_by value => sizeOf value
decreasing_by
  · exact hsmaller
  · exact hsmaller

end Entitlement.Json
