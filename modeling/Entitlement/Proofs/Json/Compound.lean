import Entitlement.Proofs.Json.Meaning

/-! # What readers read from arrays and objects

Elements and members are read one after the other, so an array is read as the list of what its
elements are read as, and an object as the fold of its members in their order. Nothing else about
the spelling matters.
-/

namespace Entitlement.Json

variable {α β σ : Type}

/-! ## Steps between elements and members -/

theorem nextElement_end (isFirst : Bool) {ws : List UInt8} (hws : IsBlank ws) (rest : List UInt8) :
    nextElement isFirst (ws ++ byte ']' :: rest) = .ok none := by
  rw [nextElement, skipSpace_append hws (by decide)]
  exact if_pos rfl

theorem closeArray_end {ws : List UInt8} (hws : IsBlank ws) (rest : List UInt8) :
    closeArray (ws ++ byte ']' :: rest) = .ok rest := by
  rw [closeArray, skipSpace_append hws (by decide)]
  exact if_pos rfl

theorem nextElement_value {tree : Tree} {ws v : List UInt8} (hws : IsBlank ws)
    (hv : Spelling (.value tree) v) (rest : List UInt8) :
    nextElement true (ws ++ (v ++ rest)) = .ok (some (v ++ rest)) := by
  obtain ⟨b, more, rfl, hb⟩ := hv.exists_cons
  rw [List.cons_append, nextElement, skipSpace_append hws hb.isSpace]
  exact if_neg hb.ne_closing

theorem nextElement_comma_value {tree : Tree} {ws ws' v : List UInt8} (hws : IsBlank ws)
    (hws' : IsBlank ws') (hv : Spelling (.value tree) v) (rest : List UInt8) :
    nextElement false (ws ++ byte ',' :: (ws' ++ (v ++ rest))) = .ok (some (v ++ rest)) := by
  obtain ⟨b, more, rfl, hb⟩ := hv.exists_cons
  have hcomma : byte ',' ≠ byte ']' := by decide
  rw [List.cons_append, nextElement, skipSpace_append hws (by decide)]
  simp only [if_neg hcomma, Bool.false_eq_true, if_false, if_true,
    skipSpace_append hws' hb.isSpace, if_neg hb.ne_closing]

/-- The set of names that a tree is. -/
def Tree.names? : Tree → Option NameSet
  | .array trees => (trees.mapM Tree.text?).map Ascending.ofList
  | _ => none

namespace Reader

/-! ## Arrays -/

section Elements

variable {item : Reader α} {add : σ → α → σ} {on : Tree → Option α}

theorem elements_of_end (isFirst : Bool) (state : σ) {ws : List UInt8} (hws : IsBlank ws)
    (rest : List UInt8) :
    elements item add isFirst state (ws ++ byte ']' :: rest) = .ok (state, rest) := by
  have hnext := nextElement_end isFirst hws rest
  rw [elements]
  split
  next h => cases hnext.symm.trans h
  next => rw [closeArray_end hws]; rfl
  next h => cases hnext.symm.trans h

theorem toOption_elements {isFirst : Bool} {state : σ} {s text : List UInt8}
    (hnext : nextElement isFirst s = .ok (some text)) :
    (elements item add isFirst state s).toOption = (item.run text).toOption.bind fun result =>
      (elements item add false (add state result.1) result.2).toOption := by
  cases hitem : item.run text with
  | ok result => rw [elements_cons hnext hitem]; rfl
  | error e =>
      rw [elements]
      split
      next h => cases hnext.symm.trans h
      next h => cases hnext.symm.trans h
      next h =>
        cases hnext.symm.trans h
        split
        next => rfl
        next h => cases hitem.symm.trans h

/-- An element is read and added, and the others follow. -/
theorem elements_of_next {isFirst : Bool} {state : σ} {s : List UInt8} {tree : Tree}
    {v rest : List UInt8} {value? : Option α}
    (hnext : nextElement isFirst s = .ok (some (v ++ rest)))
    (hreads : item.Reads tree value?) (hv : Spelling (.value tree) v) (hrest : EndsValue rest) :
    (elements item add isFirst state s).toOption =
      value?.bind fun value => (elements item add false (add state value) rest).toOption := by
  have hrun := hreads [] v rest (fun b hb => absurd hb List.not_mem_nil) hv hrest
  rw [List.nil_append] at hrun
  rw [toOption_elements hnext, hrun]
  cases value? <;> rfl

/-- The elements behind the first are added in their order. -/
theorem elements_of_spelling (hitem : ∀ tree, item.Reads tree (on tree)) {trees : List Tree}
    {more : List UInt8} (hmore : Spelling (.elements trees) more) (state : σ) (rest : List UInt8) :
    (elements item add false state (more ++ rest)).toOption =
      (trees.mapM on).map fun values => (values.foldl add state, rest) := by
  induction trees generalizing state more with
  | nil =>
      cases hmore with
      | endOfArray hws =>
          rw [List.append_assoc]
          exact congrArg Except.toOption (elements_of_end false state hws rest)
  | cons tree trees ih =>
      cases hmore with
      | @element _ _ ws ws' v more hws hws' hv hmore =>
          rw [List.append_assoc, List.cons_append, List.append_assoc, List.append_assoc,
            elements_of_next (nextElement_comma_value hws hws' hv (more ++ rest)) (hitem tree) hv
              (hmore.endsValue_elements rest)]
          simp only [ih hmore, List.mapM_cons]
          cases on tree with
          | none => rfl
          | some value => cases trees.mapM on <;> rfl

/-- The elements of an array are added in their order, unless one of them cannot be read. -/
theorem elements_of_array (hitem : ∀ tree, item.Reads tree (on tree)) {trees : List Tree}
    {more : List UInt8} (harray : Spelling (.value (.array trees)) (byte '[' :: more)) (state : σ)
    (rest : List UInt8) :
    (elements item add true state (more ++ rest)).toOption =
      (trees.mapM on).map fun values => (values.foldl add state, rest) := by
  cases harray with
  | emptyArray hws =>
      rw [List.append_assoc]
      exact congrArg Except.toOption (elements_of_end true state hws rest)
  | @array tree trees ws v more hws hv hmore =>
      rw [List.append_assoc, List.append_assoc, elements_of_next (nextElement_value hws hv _)
        (hitem tree) hv (hmore.endsValue_elements rest)]
      simp only [elements_of_spelling hitem hmore, List.mapM_cons]
      cases on tree with
      | none => rfl
      | some value => cases trees.mapM on <;> rfl

end Elements

/-- A set of names is read from an array of strings and from nothing else. -/
theorem reads_names (tree : Tree) : names.Reads tree tree.names? := by
  intro ws v rest hws hv hrest
  obtain ⟨b, more, rfl, hb⟩ := hv.exists_cons
  rw [List.cons_append, run_onFirst rfl hws hb.isSpace]
  cases tree with
  | array trees =>
      cases hb
      rw [if_pos rfl, elements_of_array reads_string hv, Tree.names?, Option.map_map]
      rfl
  | truth value => cases value <;> cases hb <;> rfl
  | number text =>
      rw [if_neg (ne_of_opensNumber hb (by decide))]
      rfl
  | _ => cases hb; rfl

end Reader

/-! ## Names of members -/

theorem toOption_map {result : Except ReadError α} (f : α → β) :
    (result.map f).toOption = result.toOption.map f := by
  cases result <;> rfl

theorem nextName_end (isFirst : Bool) {ws : List UInt8} (hws : IsBlank ws) (rest : List UInt8) :
    nextName isFirst (ws ++ byte '\x7d' :: rest) = .ok (none, rest) := by
  rw [nextName, skipSpace_append hws (by decide)]
  exact if_pos rfl

theorem nextName_body {name ws : List UInt8} (hname : IsBody name) (hws : IsBlank ws)
    (rest : List UInt8) :
    (nextName true (ws ++ byte '"' :: (name ++ byte '"' :: rest))).toOption =
      (textOf name).map fun text => (some text, rest) := by
  have hquote : byte '"' ≠ byte '\x7d' := by decide
  rw [nextName, skipSpace_append hws (by decide)]
  simp only [if_neg hquote, if_true, toOption_map, readString_body hname, Option.map_map]
  rfl

theorem nextName_comma_body {name ws ws' : List UInt8} (hname : IsBody name) (hws : IsBlank ws)
    (hws' : IsBlank ws') (rest : List UInt8) :
    (nextName false (ws ++ byte ',' :: (ws' ++ byte '"' :: (name ++ byte '"' :: rest)))).toOption =
      (textOf name).map fun text => (some text, rest) := by
  have hcomma : byte ',' ≠ byte '\x7d' := by decide
  have hquote : isSpace (byte '"') = false := by decide
  rw [nextName, skipSpace_append hws (by decide)]
  simp only [if_neg hcomma, Bool.false_eq_true, if_false, if_true, skipSpace_append hws' hquote,
    toOption_map, readString_body hname, Option.map_map]
  rfl

namespace Reader

/-! ## Objects -/

/-- What a member is read as, given its name and the state before it. -/
def Decides (field : σ → String → Except ReadError (Reader σ)) (on : σ → String → Tree → Option σ) :
    Prop :=
  ∀ state name tree,
    match field state name with
    | .error _ => on state name tree = none
    | .ok reader => reader.Reads tree (on state name tree)

section Members

variable {field : σ → String → Except ReadError (Reader σ)} {on : σ → String → Tree → Option σ}

theorem members_of_error {isFirst : Bool} {state : σ} {s : List UInt8} {e : ReadError}
    (hname : nextName isFirst s = .error e) : members field isFirst state s = .error e := by
  rw [members]
  split
  next h => exact congrArg Except.error (Except.error.inj (h.symm.trans hname))
  next h => cases hname.symm.trans h
  next h => cases hname.symm.trans h

theorem members_of_name {isFirst : Bool} {state : σ} {s rest : List UInt8} {name : String}
    (hname : nextName isFirst s = .ok (some name, rest)) :
    members field isFirst state s =
      match field state name with
      | .error e => .error e
      | .ok reader =>
        match readColon rest with
        | .error e => .error e
        | .ok after =>
          match reader.run after with
          | .error e => .error e
          | .ok (next, last) => members field false next last := by
  rw [members]
  split
  next h => cases hname.symm.trans h
  next h => cases hname.symm.trans h
  next h =>
    cases hname.symm.trans h
    cases field state name with
    | error e => rfl
    | ok reader =>
        dsimp only
        split
        next h => rw [h]
        next after h =>
          rw [h]
          dsimp only
          split
          next h => rw [h]
          next h => rw [h]

/-- A member is read in the state before it, and the others follow. -/
theorem members_of_next (hdecides : Decides field on) {isFirst : Bool} {state : σ}
    {s name ws ws' v rest : List UInt8} {tree : Tree} (hws : IsBlank ws) (hws' : IsBlank ws')
    (hname : (nextName isFirst s).toOption =
      (textOf name).map fun text => (some text, ws ++ byte ':' :: (ws' ++ (v ++ rest))))
    (hv : Spelling (.value tree) v) (hrest : EndsValue rest) :
    (members field isFirst state s).toOption = (textOf name).bind fun text =>
      (on state text tree).bind fun next => (members field false next rest).toOption := by
  cases htext : textOf name with
  | none =>
      rw [htext] at hname
      cases hnext : nextName isFirst s with
      | error e => rw [members_of_error hnext]; rfl
      | ok found => rw [hnext] at hname; cases hname
  | some text =>
      rw [htext] at hname
      cases hnext : nextName isFirst s with
      | error e => rw [hnext] at hname; cases hname
      | ok found =>
          rw [hnext] at hname
          cases hname
          rw [members_of_name hnext, readColon_append hws]
          have hmember := hdecides state text tree
          cases hfield : field state text with
          | error e =>
              rw [hfield] at hmember
              simp only [hmember, Option.bind_some, Option.bind_none]
              rfl
          | ok reader =>
              rw [hfield] at hmember
              rcases cases_of_toOption (hmember ws' v rest hws' hv hrest) with
                ⟨next, hon, hok⟩ | ⟨hon, e, herror⟩
              · simp only [hok, hon, Option.bind_some]
              · simp only [herror, hon, Option.bind_some, Option.bind_none]
                rfl

/-- What a member makes of the state before it. -/
def readMember (on : σ → String → Tree → Option σ) (state : σ) (m : List UInt8 × Tree) : Option σ :=
  (textOf m.1).bind fun name => on state name m.2

theorem foldlM_readMember_cons (state : σ) (m : List UInt8 × Tree) (ms : List (List UInt8 × Tree)) :
    (m :: ms).foldlM (readMember on) state = (textOf m.1).bind fun name =>
      (on state name m.2).bind fun next => ms.foldlM (readMember on) next := by
  rw [List.foldlM_cons, readMember]
  cases textOf m.1 <;> rfl

theorem members_of_end (isFirst : Bool) (state : σ) {ws : List UInt8} (hws : IsBlank ws)
    (rest : List UInt8) :
    members field isFirst state (ws ++ byte '\x7d' :: rest) = .ok (state, rest) := by
  have hname := nextName_end isFirst hws rest
  rw [members]
  split
  next h => cases hname.symm.trans h
  next h => cases hname.symm.trans h; rfl
  next h => cases hname.symm.trans h

/-- The members behind the first are read in their order. -/
theorem members_of_spelling (hdecides : Decides field on) {ms : List (List UInt8 × Tree)}
    {more : List UInt8} (hmore : Spelling (.members ms) more) (state : σ) (rest : List UInt8) :
    (members field false state (more ++ rest)).toOption =
      (ms.foldlM (readMember on) state).map (·, rest) := by
  induction ms generalizing state more with
  | nil =>
      cases hmore with
      | endOfObject hws =>
          rw [List.append_assoc]
          exact congrArg Except.toOption (members_of_end false state hws rest)
  | cons m ms ih =>
      cases hmore with
      | nextMember hws hws' hm hmore =>
          cases hm with
          | member hname hws₁ hws₂ hv =>
              have hnext := nextName_comma_body hname hws hws' 
              simp only [List.append_assoc, List.cons_append] at hnext ⊢
              rw [members_of_next hdecides hws₁ hws₂ (hnext _) hv (hmore.endsValue_members rest)]
              simp only [foldlM_readMember_cons, Option.map_bind, Function.comp_def, ih hmore]

/-- The members of an object are read in their order, each in the state that those before it have
left. -/
theorem members_of_object (hdecides : Decides field on) {ms : List (List UInt8 × Tree)}
    {more : List UInt8} (hobject : Spelling (.value (.object ms)) (byte '\x7b' :: more)) (state : σ)
    (rest : List UInt8) :
    (members field true state (more ++ rest)).toOption =
      (ms.foldlM (readMember on) state).map (·, rest) := by
  cases hobject with
  | emptyObject hws =>
      rw [List.append_assoc]
      exact congrArg Except.toOption (members_of_end true state hws rest)
  | object hws hm hmore =>
      cases hm with
      | member hname hws₁ hws₂ hv =>
          have hnext := nextName_body hname hws
          simp only [List.append_assoc, List.cons_append] at hnext ⊢
          rw [members_of_next hdecides hws₁ hws₂ (hnext _) hv (hmore.endsValue_members rest)]
          simp only [foldlM_readMember_cons, Option.map_bind, Function.comp_def,
            members_of_spelling hdecides hmore]

end Members

/-! ## Tables -/

/-- The entry of a table that a member is, given what its value is read as. -/
def entryOf (on : Tree → Option α) (m : List UInt8 × Tree) : Option (String × α) :=
  (textOf m.1).bind fun name => (on m.2).map (name, ·)

/-- The table that a tree is; of several values of one name the last one stays. -/
def tableOf (on : Tree → Option α) : Tree → Option (Table α)
  | .object ms => (ms.mapM (entryOf on)).map Ascending.ofList
  | _ => none

theorem foldlM_entries (on : Tree → Option α) (ms : List (List UInt8 × Tree)) (entries : Table α) :
    ms.foldlM (readMember fun entries name tree => (on tree).map (Table.set entries name)) entries =
      (ms.mapM (entryOf on)).map fun more => more.foldl Ascending.insert entries := by
  induction ms generalizing entries with
  | nil => rfl
  | cons m ms ih =>
      rw [foldlM_readMember_cons, List.mapM_cons, entryOf]
      cases textOf m.1 with
      | none => rfl
      | some name =>
          cases on m.2 with
          | none => rfl
          | some value =>
              simp only [Option.bind_some, Option.map_some, ih]
              cases ms.mapM (entryOf on) <;> rfl

/-- A table is read from an object and from nothing else. -/
theorem reads_table {value : Reader α} {on : Tree → Option α}
    (hvalue : ∀ tree, value.Reads tree (on tree)) (tree : Tree) :
    (table value).Reads tree (tableOf on tree) := by
  intro ws v rest hws hv hrest
  obtain ⟨b, more, rfl, hb⟩ := hv.exists_cons
  rw [List.cons_append, run_onFirst rfl hws hb.isSpace]
  cases tree with
  | object ms =>
      have hdecides : Decides (fun (entries : Table α) name => .ok (value.map (entries.set name)))
          (fun entries name tree => (on tree).map (entries.set name)) :=
        fun entries name tree => (hvalue tree).map _
      cases hb
      rw [if_pos rfl, members_of_object hdecides hv, foldlM_entries, tableOf, Option.map_map,
        Option.map_map]
      rfl
  | truth value => cases value <;> cases hb <;> rfl
  | number text =>
      rw [if_neg (ne_of_opensNumber hb (by decide))]
      rfl
  | _ => cases hb; rfl

/-! ## Choices -/

/-- Null is read from null and from nothing else. -/
def null? : Tree → Option Unit
  | .null => some ()
  | _ => none

theorem reads_null (tree : Tree) : null.Reads tree (null? tree) := by
  intro ws v rest hws hv hrest
  obtain ⟨b, more, rfl, hb⟩ := hv.exists_cons
  rw [List.cons_append, run_onFirst rfl hws hb.isSpace]
  cases tree with
  | null =>
      cases hv
      rfl
  | truth value => cases value <;> cases hb <;> rfl
  | number text =>
      rw [if_neg (ne_of_opensNumber hb (by decide))]
      rfl
  | _ => cases hb; rfl

/-- The choice that a tree is: a name, or an object that gives null to nothing but that name. -/
def choiceOf (choices : List (String × α)) : Tree → Option α
  | .string body => (textOf body).bind fun name => choices.lookup name
  | .object [(body, tree)] =>
    (textOf body).bind fun name => (choices.lookup name).bind fun value =>
      (null? tree).map fun () => value
  | _ => none

theorem toOption_choose (choices : List (String × α)) (name : String) :
    (choose choices name).toOption = choices.lookup name := by
  unfold choose
  cases choices.lookup name <;> rfl

theorem choiceName_body {name ws : List UInt8} (hname : IsBody name) (hws : IsBlank ws)
    (rest : List UInt8) :
    (choiceName (ws ++ byte '"' :: (name ++ byte '"' :: rest))).toOption =
      (textOf name).map (·, rest) := by
  rw [choiceName, skipSpace_append hws (by decide)]
  exact readString_body hname rest

theorem toOption_bind (result : Except ReadError α) (f : α → Except ReadError β) :
    (result >>= f).toOption = result.toOption.bind fun value => (f value).toOption := by
  cases result <;> rfl

/-- Another member makes an object no choice. -/
theorem closeChoice_spelling {ms : List (List UInt8 × Tree)} {more : List UInt8}
    (hmore : Spelling (.members ms) more) (rest : List UInt8) :
    (closeChoice (more ++ rest)).toOption = if ms.isEmpty then some rest else none := by
  cases hmore with
  | endOfObject hws =>
      rw [List.append_assoc]
      change (closeChoice (_ ++ byte '\x7d' :: rest)).toOption = _
      rw [closeChoice, skipSpace_append hws (by decide)]
      rfl
  | nextMember hws _ _ _ =>
      rw [List.append_assoc, List.cons_append, closeChoice, skipSpace_append hws (by decide)]
      rfl

theorem toOption_choiceObject (choices : List (String × α)) (s : List UInt8) :
    (choiceObject choices s).toOption = (choiceName s).toOption.bind fun named =>
      (choices.lookup named.1).bind fun value =>
        (readColon named.2).toOption.bind fun after =>
          (null.run after).toOption.bind fun found =>
            (closeChoice found.2).toOption.map fun rest => (value, rest) := by
  unfold choiceObject
  rw [toOption_bind]
  refine congrArg _ (funext fun named => ?_)
  rw [toOption_bind, toOption_choose]
  refine congrArg _ (funext fun value => ?_)
  rw [toOption_bind]
  refine congrArg _ (funext fun after => ?_)
  rw [toOption_bind]
  refine congrArg _ (funext fun found => ?_)
  rw [toOption_bind]
  cases closeChoice found.2 <;> rfl

theorem choiceObject_spelling (choices : List (String × α)) {ms : List (List UInt8 × Tree)}
    {more : List UInt8} (hobject : Spelling (.value (.object ms)) (byte '\x7b' :: more))
    (rest : List UInt8) :
    (choiceObject choices (more ++ rest)).toOption =
      (choiceOf choices (.object ms)).map (·, rest) := by
  rw [toOption_choiceObject]
  cases hobject with
  | @emptyObject ws hws =>
      have hname : choiceName (ws ++ byte '\x7d' :: rest) = .error (.malformed .expectedValue) := by
        rw [choiceName, skipSpace_append hws (by decide)]
        rfl
      rw [List.append_assoc, List.singleton_append, hname]
      rfl
  | @object name tree ms ws m after hws hm hmore =>
      cases hm with
      | @member _ _ ws₁ ws₂ v hname hws₁ hws₂ hv =>
          have hnull := reads_null tree ws₂ v _ hws₂ hv (hmore.endsValue_members rest)
          have hfirst :=
            choiceName_body hname hws (ws₁ ++ byte ':' :: (ws₂ ++ (v ++ (after ++ rest))))
          simp only [List.append_assoc, List.cons_append]
          rw [hfirst, Option.bind_map]
          have hcolon : (readColon (ws₁ ++ byte ':' :: (ws₂ ++ (v ++ (after ++ rest))))).toOption =
              some (ws₂ ++ (v ++ (after ++ rest))) := by
            rw [readColon_append hws₁]
            rfl
          simp only [Function.comp_def, hcolon, Option.bind_some, hnull, Option.bind_map,
            closeChoice_spelling hmore]
          cases ms with
          | nil =>
              rw [choiceOf]
              cases textOf name with
              | none => rfl
              | some text =>
                  simp only [Option.bind_some]
                  cases choices.lookup text with
                  | none => rfl
                  | some value => cases null? tree <;> rfl
          | cons m ms => simp [choiceOf]

/-- A choice is read from its name, be it a string or the only name of an object, and from nothing
else. -/
theorem reads_choice (choices : List (String × α)) (tree : Tree) :
    (choice choices).Reads tree (choiceOf choices tree) := by
  intro ws v rest hws hv hrest
  obtain ⟨b, more, rfl, hb⟩ := hv.exists_cons
  rw [List.cons_append, run_onFirst rfl hws hb.isSpace]
  cases tree with
  | string body =>
      cases hv with
      | string hbody =>
          rw [if_pos rfl, List.append_assoc, choiceOf]
          rcases cases_of_toOption (readString_body hbody rest) with
            ⟨name, htext, hok⟩ | ⟨htext, e, herror⟩
          · simp only [List.singleton_append, hok, htext, toOption_map, toOption_choose,
              Option.bind_some]
          · simp only [List.singleton_append, herror, htext]
            rfl
  | object ms =>
      cases hb
      rw [if_neg (by decide), if_pos rfl]
      exact choiceObject_spelling choices hv rest
  | truth value => cases value <;> cases hb <;> rfl
  | number text =>
      rw [if_neg (ne_of_opensNumber hb (by decide)), if_neg (ne_of_opensNumber hb (by decide))]
      rfl
  | _ => cases hb; rfl

end Reader

end Entitlement.Json
