import Entitlement.Proofs.Json.Skip

/-! # A text spells at most one tree

The first byte of a value tells its kind, and passing over a value tells where it ends. So the
elements of an array and the members of an object can be found in a text one by one, and no text can
be taken for the spelling of two trees.
-/

namespace Entitlement.Json

/-! ## Kinds of values -/

inductive Kind where
  | null | true | false | number | string | array | object

/-- The kind of a value that starts with a byte. -/
def Kind.ofFirst (b : UInt8) : Kind :=
  if b = byte 'n' then .null
  else if b = byte 't' then .true
  else if b = byte 'f' then .false
  else if b = byte '"' then .string
  else if b = byte '[' then .array
  else if b = byte '\x7b' then .object
  else .number

def Tree.kind : Tree → Kind
  | .null => .null
  | .truth true => .true
  | .truth false => .false
  | .number _ => .number
  | .string _ => .string
  | .array _ => .array
  | .object _ => .object

theorem Tree.OpensWith.kind_eq {tree : Tree} {b : UInt8} (hb : tree.OpensWith b) :
    tree.kind = Kind.ofFirst b := by
  cases tree with
  | truth value => cases value <;> cases hb <;> rfl
  | number text =>
      have hne := fun other => @ne_of_opensNumber b hb other
      rw [Kind.ofFirst, if_neg (hne _ (by decide)), if_neg (hne _ (by decide)),
        if_neg (hne _ (by decide)), if_neg (hne _ (by decide)), if_neg (hne _ (by decide)),
        if_neg (hne _ (by decide))]
      rfl
  | _ => cases hb; rfl

/-- Trees with the same spelling are of the same kind. -/
theorem Spelling.kind_eq {tree tree' : Tree} {v : List UInt8} (hv : Spelling (.value tree) v)
    (hv' : Spelling (.value tree') v) : tree'.kind = tree.kind := by
  obtain ⟨b, more, rfl, hb⟩ := hv.exists_cons
  obtain ⟨b', more', heq, hb'⟩ := hv'.exists_cons
  obtain ⟨rfl, -⟩ := List.cons.inj heq
  rw [hb.kind_eq, hb'.kind_eq]

/-- What the kind tells of a tree. -/
def Kind.Describes (tree : Tree) : Kind → Prop
  | .null => tree = .null
  | .true => tree = .truth Bool.true
  | .false => tree = .truth Bool.false
  | .number => ∃ text, tree = .number text
  | .string => ∃ body, tree = .string body
  | .array => ∃ trees, tree = .array trees
  | .object => ∃ ms, tree = .object ms

theorem Tree.describes_kind (tree : Tree) : tree.kind.Describes tree := by
  cases tree with
  | null => rfl
  | truth value => cases value <;> rfl
  | _ => exact ⟨_, rfl⟩

theorem Spelling.describes {tree tree' : Tree} {v : List UInt8} (hv : Spelling (.value tree) v)
    (hv' : Spelling (.value tree') v) : tree.kind.Describes tree' := by
  rw [← hv.kind_eq hv']
  exact tree'.describes_kind

/-! ## Where values end -/

section Ends

variable {tree tree' : Tree} {ws ws' v v' rest rest' : List UInt8}

/-- Behind blanks the same signs stand, and the same texts follow them. -/
theorem cons_eq_of_isBlank {b b' : UInt8} (hws : IsBlank ws) (hws' : IsBlank ws')
    (hb : isSpace b = false) (hb' : isSpace b' = false)
    (htext : ws ++ b :: rest = ws' ++ b' :: rest') : b = b' ∧ rest = rest' := by
  have hsigns := congrArg skipSpace htext
  rw [skipSpace_append hws hb, skipSpace_append hws' hb'] at hsigns
  exact List.cons.inj hsigns

/-- A value ends at the same place whatever it is taken for. -/
theorem Spelling.end_eq (hws : IsBlank ws) (hws' : IsBlank ws') (hv : Spelling (.value tree) v)
    (hv' : Spelling (.value tree') v') (hrest : EndsValue rest) (hrest' : EndsValue rest')
    (htext : ws ++ (v ++ rest) = ws' ++ (v' ++ rest')) : v' = v ∧ rest' = rest := by
  have hskip := Reader.run_skip hws hv hrest
  rw [htext, Reader.run_skip hws' hv' hrest', Except.ok.injEq, Prod.mk.injEq] at hskip
  obtain ⟨-, rfl⟩ := hskip
  obtain ⟨b, more, rfl, hb⟩ := hv.exists_cons
  obtain ⟨b', more', rfl, hb'⟩ := hv'.exists_cons
  obtain ⟨rfl, hmore⟩ := cons_eq_of_isBlank hws hws' hb.isSpace hb'.isSpace htext
  exact ⟨by rw [List.append_cancel_right hmore], rfl⟩

/-- An array that ends has no element there. -/
theorem Spelling.not_closing (hws : IsBlank ws) (hws' : IsBlank ws')
    (hv : Spelling (.value tree) v) (htext : ws ++ byte ']' :: rest = ws' ++ (v ++ rest')) :
    False := by
  obtain ⟨b, more, rfl, hb⟩ := hv.exists_cons
  exact hb.ne_closing (cons_eq_of_isBlank hws hws' (by decide) hb.isSpace htext).1.symm

theorem Spelling.member_not_closing {name m : List UInt8} (hws : IsBlank ws) (hws' : IsBlank ws')
    (hm : Spelling (.member name tree) m)
    (htext : ws ++ byte '\x7d' :: rest = ws' ++ (m ++ rest')) : False := by
  obtain ⟨more, rfl⟩ := hm.exists_quote
  exact absurd (cons_eq_of_isBlank hws hws' (by decide) (by decide) htext).1 (by decide)

theorem Spelling.member_eq_of_isBlank {name name' m m' : List UInt8} (hws : IsBlank ws)
    (hws' : IsBlank ws') (hm : Spelling (.member name tree) m)
    (hm' : Spelling (.member name' tree') m') (htext : ws ++ (m ++ rest) = ws' ++ (m' ++ rest')) :
    m ++ rest = m' ++ rest' := by
  obtain ⟨more, rfl⟩ := hm.exists_quote
  obtain ⟨more', rfl⟩ := hm'.exists_quote
  obtain ⟨-, hmore⟩ := cons_eq_of_isBlank hws hws' (by decide) (by decide) htext
  exact congrArg (byte '"' :: ·) hmore

theorem Spelling.ends_elements {trees : List Tree} {more : List UInt8}
    (hmore : Spelling (.elements trees) more) : EndsValue more := by
  simpa using hmore.endsValue_elements []

theorem Spelling.ends_members {ms : List (List UInt8 × Tree)} {more : List UInt8}
    (hmore : Spelling (.members ms) more) : EndsValue more := by
  simpa using hmore.endsValue_members []

/-- A name ends at the same quote whatever follows. -/
theorem IsBody.end_eq {name name' : List UInt8} (hname : IsBody name) (hname' : IsBody name')
    (htext : name ++ byte '"' :: rest = name' ++ byte '"' :: rest') :
    name' = name ∧ rest' = rest := by
  have hskip := skipString_body hname rest
  rw [htext, skipString_body hname' rest', Except.ok.injEq] at hskip
  subst hskip
  exact ⟨(List.append_cancel_right htext).symm, rfl⟩

end Ends

/-! ## Trees -/

/-- A text spells nothing else of the same form. That a member ends nowhere else belongs to it. -/
def IsOnly : Form → List UInt8 → Prop
  | .value tree, v => ∀ tree', Spelling (.value tree') v → tree' = tree
  | .member name tree, m => ∀ name' tree' m' rest rest', Spelling (.member name' tree') m' →
      EndsValue rest → EndsValue rest' → m ++ rest = m' ++ rest' →
        name' = name ∧ tree' = tree ∧ rest' = rest
  | .elements trees, more => ∀ trees', Spelling (.elements trees') more → trees' = trees
  | .members ms, more => ∀ ms', Spelling (.members ms') more → ms' = ms

theorem Spelling.isOnly {form : Form} {text : List UInt8} (htext : Spelling form text) :
    IsOnly form text := by
  induction htext with
  | null => exact fun tree' hv' => Spelling.null.describes hv'
  | true => exact fun tree' hv' => Spelling.true.describes hv'
  | false => exact fun tree' hv' => Spelling.false.describes hv'
  | number htext =>
      intro tree' hv'
      obtain ⟨text', rfl⟩ := (Spelling.number htext).describes hv'
      cases hv'
      rfl
  | @string body hbody =>
      intro tree' hv'
      obtain ⟨body', rfl⟩ := (Spelling.string hbody).describes hv'
      generalize hsame : byte '"' :: (body ++ [byte '"']) = text at hv'
      cases hv' with
      | string hbody' => rw [List.append_cancel_right (List.cons.inj hsame).2]
  | @emptyArray ws hws =>
      intro tree' hv'
      obtain ⟨trees', rfl⟩ := (Spelling.emptyArray hws).describes hv'
      generalize hsame : byte '[' :: (ws ++ [byte ']']) = text at hv'
      cases hv' with
      | emptyArray hws' => rfl
      | array hws' hv' hmore' => exact (hv'.not_closing hws hws' (List.cons.inj hsame).2).elim
  | @array tree trees ws v more hws hv hmore ihv ihmore =>
      intro tree' hv'
      obtain ⟨trees', rfl⟩ := (Spelling.array hws hv hmore).describes hv'
      generalize hsame : byte '[' :: (ws ++ (v ++ more)) = text at hv'
      cases hv' with
      | emptyArray hws' => exact (hv.not_closing hws' hws (List.cons.inj hsame).2.symm).elim
      | array hws' hv' hmore' =>
          obtain ⟨rfl, rfl⟩ := Spelling.end_eq hws hws' hv hv' hmore.ends_elements
            hmore'.ends_elements (List.cons.inj hsame).2
          rw [ihv _ hv', ihmore _ hmore']
  | @endOfArray ws hws =>
      intro trees' hmore'
      generalize hsame : ws ++ [byte ']'] = text at hmore'
      cases hmore' with
      | endOfArray hws' => rfl
      | element hws' _ _ _ =>
          exact absurd (cons_eq_of_isBlank hws hws' (by decide) (by decide) hsame).1 (by decide)
  | @element tree trees ws ws' v more hws hws' hv hmore ihv ihmore =>
      intro trees' hmore'
      generalize hsame : ws ++ byte ',' :: (ws' ++ (v ++ more)) = text at hmore'
      cases hmore' with
      | endOfArray hblank =>
          exact absurd (cons_eq_of_isBlank hws hblank (by decide) (by decide) hsame).1 (by decide)
      | element hblank hblank' hv' hmore' =>
          obtain ⟨-, hnext⟩ := cons_eq_of_isBlank hws hblank (by decide) (by decide) hsame
          obtain ⟨rfl, rfl⟩ := Spelling.end_eq hws' hblank' hv hv' hmore.ends_elements
            hmore'.ends_elements hnext
          rw [ihv _ hv', ihmore _ hmore']
  | @emptyObject ws hws =>
      intro tree' hv'
      obtain ⟨ms', rfl⟩ := (Spelling.emptyObject hws).describes hv'
      generalize hsame : byte '\x7b' :: (ws ++ [byte '\x7d']) = text at hv'
      cases hv' with
      | emptyObject hws' => rfl
      | object hws' hm' hmore' =>
        exact (hm'.member_not_closing hws hws' (List.cons.inj hsame).2).elim
  | @object name tree ms ws m more hws hm hmore ihm ihmore =>
      intro tree' hv'
      obtain ⟨ms', rfl⟩ := (Spelling.object hws hm hmore).describes hv'
      generalize hsame : byte '\x7b' :: (ws ++ (m ++ more)) = text at hv'
      cases hv' with
      | emptyObject hws' => exact (hm.member_not_closing hws' hws (List.cons.inj hsame).2.symm).elim
      | object hws' hm' hmore' =>
          have hnext := Spelling.member_eq_of_isBlank hws hws' hm hm' (List.cons.inj hsame).2
          obtain ⟨rfl, rfl, rfl⟩ := ihm _ _ _ _ _ hm' hmore.ends_members hmore'.ends_members hnext
          rw [ihmore _ hmore']
  | @endOfObject ws hws =>
      intro ms' hmore'
      generalize hsame : ws ++ [byte '\x7d'] = text at hmore'
      cases hmore' with
      | endOfObject hws' => rfl
      | nextMember hws' _ _ _ =>
          exact absurd (cons_eq_of_isBlank hws hws' (by decide) (by decide) hsame).1 (by decide)
  | @nextMember name tree ms ws ws' m more hws hws' hm hmore ihm ihmore =>
      intro ms' hmore'
      generalize hsame : ws ++ byte ',' :: (ws' ++ (m ++ more)) = text at hmore'
      cases hmore' with
      | endOfObject hblank =>
          exact absurd (cons_eq_of_isBlank hws hblank (by decide) (by decide) hsame).1 (by decide)
      | nextMember hblank hblank' hm' hmore' =>
          obtain ⟨-, hafter⟩ := cons_eq_of_isBlank hws hblank (by decide) (by decide) hsame
          have hnext := Spelling.member_eq_of_isBlank hws' hblank' hm hm' hafter
          obtain ⟨rfl, rfl, rfl⟩ := ihm _ _ _ _ _ hm' hmore.ends_members hmore'.ends_members hnext
          rw [ihmore _ hmore']
  | @member name tree ws ws' v hname hws hws' hv ihv =>
      intro name' tree' m' rest rest' hm' hrest hrest' hsame
      cases hm' with
      | member hname' hblank hblank' hv' =>
          simp only [List.cons_append, List.append_assoc] at hsame
          obtain ⟨rfl, hcolon⟩ := hname.end_eq hname' (List.cons.inj hsame).2
          obtain ⟨-, hvalue⟩ :=
            cons_eq_of_isBlank hws hblank (by decide) (by decide) hcolon.symm
          obtain ⟨rfl, rfl⟩ := Spelling.end_eq hws' hblank' hv hv' hrest hrest' hvalue
          exact ⟨rfl, ihv _ hv', rfl⟩

/-- A text spells at most one tree. -/
theorem Spelling.tree_eq {tree tree' : Tree} {v : List UInt8} (hv : Spelling (.value tree) v)
    (hv' : Spelling (.value tree') v) : tree' = tree :=
  hv.isOnly tree' hv'

/-- A document spells at most one tree. -/
theorem IsDocument.tree_eq {tree tree' : Tree} {document : List UInt8}
    (hdocument : IsDocument tree document) (hdocument' : IsDocument tree' document) :
    tree' = tree := by
  obtain ⟨before, v, after, hbefore, hv, hafter, rfl⟩ := hdocument
  obtain ⟨before', v', after', hbefore', hv', hafter', hsame⟩ := hdocument'
  obtain ⟨rfl, -⟩ := Spelling.end_eq hbefore hbefore' hv hv' (endsValue_of_isBlank hafter)
    (endsValue_of_isBlank hafter') hsame
  exact hv.tree_eq hv'

end Entitlement.Json
