import Entitlement.Json.Skip

/-! # Readers for arrays and objects

Elements and members are handed on in the order of the text. Which value a member holds is decided
by its name; of a table's members with one name the last one stays, and an element that a set
already has adds nothing.
-/

namespace Entitlement.Json

/-! ## Steps between elements and members -/

/-- The text from the next element of an array on, or nothing at the end of the array. -/
def nextElement (isFirst : Bool) (s : List UInt8) : Except ReadError (Option (List UInt8)) :=
  match skipSpace s with
  | [] => .error (.malformed .endInArray)
  | b :: rest =>
    if b = byte ']' then .ok none
    else if isFirst then .ok (some (b :: rest))
    else if b = byte ',' then
      match skipSpace rest with
      | [] => .error (.malformed .endInValue)
      | next :: after =>
        if next = byte ']' then .error (.malformed .trailingComma) else .ok (some (next :: after))
    else .error (.malformed .expectedArrayEnd)

theorem nextElement_length {isFirst : Bool} {s rest : List UInt8}
    (h : nextElement isFirst s = .ok (some rest)) : rest.length ≤ s.length := by
  unfold nextElement at h
  split at h
  · simp at h
  next b after hskip =>
    have hlt := length_of_skipSpace hskip
    split at h
    · simp at h
    · split at h
      · simp only [Except.ok.injEq, Option.some.injEq] at h
        rw [← h, List.length_cons]
        exact hlt
      · split at h
        · split at h
          · simp at h
          next next after' hskip' =>
            have := length_of_skipSpace hskip'
            split at h
            · simp at h
            · simp only [Except.ok.injEq, Option.some.injEq] at h
              rw [← h, List.length_cons]
              omega
        · simp at h

/-- What is left after the end of an array, which has to be here. -/
def closeArray (s : List UInt8) : Except ReadError (List UInt8) :=
  match skipSpace s with
  | [] => .error (.malformed .endInArray)
  | b :: rest =>
    if b = byte ']' then .ok rest
    else if b = byte ',' then
      match skipSpace rest with
      | [] => .error (.malformed .trailingCharacters)
      | next :: _ =>
        .error (.malformed (if next = byte ']' then .trailingComma else .trailingCharacters))
    else .error (.malformed .trailingCharacters)

theorem closeArray_length {s rest : List UInt8} (h : closeArray s = .ok rest) :
    rest.length < s.length := by
  unfold closeArray at h
  split at h
  · simp at h
  next b after hskip =>
    split at h
    · simp only [Except.ok.injEq] at h
      exact h ▸ length_of_skipSpace hskip
    · split at h
      · split at h <;> simp at h
      · simp at h

/-- The name of the next member of an object and the text after it, or the text after the end of the
object. -/
def nextName (isFirst : Bool) (s : List UInt8) : Except ReadError (Option String × List UInt8) :=
  match skipSpace s with
  | [] => .error (.malformed .endInObject)
  | b :: rest =>
    if b = byte '\x7d' then .ok (none, rest)
    else if isFirst then
      if b = byte '"' then (readString rest).map fun (name, after) => (some name, after)
      else .error (.malformed .nameNotString)
    else if b = byte ',' then
      match skipSpace rest with
      | [] => .error (.malformed .endInValue)
      | next :: after =>
        if next = byte '"' then (readString after).map fun (name, after) => (some name, after)
        else if next = byte '\x7d' then .error (.malformed .trailingComma)
        else .error (.malformed .nameNotString)
    else .error (.malformed .expectedObjectEnd)

theorem length_of_readString_map {s rest : List UInt8} {name : Option String}
    (h : ((readString s).map fun (name, after) => (some name, after)) = .ok (name, rest)) :
    rest.length < s.length := by
  cases hread : readString s with
  | error e => simp [hread, Except.map] at h
  | ok r =>
    obtain ⟨text, after⟩ := r
    simp only [hread, Except.map, Except.ok.injEq, Prod.mk.injEq] at h
    exact h.2 ▸ readString_length hread

theorem nextName_length {isFirst : Bool} {s rest : List UInt8} {name : Option String}
    (h : nextName isFirst s = .ok (name, rest)) : rest.length < s.length := by
  unfold nextName at h
  split at h
  · simp at h
  next b after hskip =>
    have hlt := length_of_skipSpace hskip
    split at h
    · simp only [Except.ok.injEq, Prod.mk.injEq] at h
      exact h.2 ▸ hlt
    · split at h
      · split at h
        · have := length_of_readString_map h
          omega
        · simp at h
      · split at h
        · split at h
          · simp at h
          next next after' hskip' =>
            have := length_of_skipSpace hskip'
            split at h
            · have := length_of_readString_map h
              omega
            · split at h <;> simp at h
        · simp at h

namespace Reader

variable {α σ : Type}

/-! ## Whole arrays and objects -/

/-- Reads the elements of an array up to its end, adding each to a state. -/
def elements (item : Reader α) (add : σ → α → σ) (isFirst : Bool) (state : σ) (s : List UInt8) :
    Except ReadError (σ × List UInt8) :=
  match _hnext : nextElement isFirst s with
  | .error e => .error e
  | .ok none => (closeArray s).map (state, ·)
  | .ok (some rest) =>
    match _hitem : item.run rest with
    | .error e => .error e
    | .ok (value, after) => elements item add false (add state value) after
termination_by s.length
decreasing_by exact Nat.lt_of_lt_of_le (item.shortens _hitem) (nextElement_length _hnext)

theorem elements_length {item : Reader α} {add : σ → α → σ} {isFirst : Bool} {state result : σ}
    {s rest : List UInt8} (h : elements item add isFirst state s = .ok (result, rest)) :
    rest.length < s.length := by
  fun_induction elements item add isFirst state s with
  | case1 | case3 => simp at h
  | case2 isFirst state s hnext =>
    cases hclose : closeArray s with
    | error e => simp [hclose, Except.map] at h
    | ok after =>
      simp only [hclose, Except.map, Except.ok.injEq, Prod.mk.injEq] at h
      exact h.2 ▸ closeArray_length hclose
  | case4 isFirst state s rest' hnext value after hitem ih =>
    have := ih h
    have := item.shortens hitem
    have := nextElement_length hnext
    omega

/-- Reads the members of an object up to its end. The name of each decides the reader for its value,
which returns the state after the member. -/
def members (field : σ → String → Except ReadError (Reader σ)) (isFirst : Bool) (state : σ)
    (s : List UInt8) : Except ReadError (σ × List UInt8) :=
  match _hname : nextName isFirst s with
  | .error e => .error e
  | .ok (none, rest) => .ok (state, rest)
  | .ok (some name, rest) =>
    match field state name with
    | .error e => .error e
    | .ok reader =>
      match _hcolon : readColon rest with
      | .error e => .error e
      | .ok after =>
        match _hvalue : reader.run after with
        | .error e => .error e
        | .ok (state, last) => members field false state last
termination_by s.length
decreasing_by
  have := nextName_length _hname
  have := readColon_length _hcolon
  have := reader.shortens _hvalue
  omega

theorem members_length {field : σ → String → Except ReadError (Reader σ)} {isFirst : Bool}
    {state result : σ} {s rest : List UInt8}
    (h : members field isFirst state s = .ok (result, rest)) : rest.length < s.length := by
  fun_induction members field isFirst state s with
  | case1 | case3 | case4 | case5 => simp at h
  | case2 isFirst state s rest' hname =>
    simp only [Except.ok.injEq, Prod.mk.injEq] at h
    exact h.2 ▸ nextName_length hname
  | case6 isFirst state s name rest' hname reader hfield after hcolon state' last hvalue ih =>
    have := ih h
    have := nextName_length hname
    have := readColon_length hcolon
    have := reader.shortens hvalue
    omega

/-- Reads a set of names from an array. -/
def names : Reader NameSet :=
  onFirst
    (fun b s =>
      if b = byte '[' then elements string Ascending.insert true ∅ s
      else .error (mistyped "a sequence" b s))
    (by
      intro b s value rest h
      split at h
      · exact Nat.le_of_lt (elements_length h)
      · simp at h)

/-- Reads a table from an object, each value with the same reader. -/
def table (value : Reader α) : Reader (Table α) :=
  onFirst
    (fun b s =>
      if b = byte '\x7b' then
        members (fun (entries : Table α) name => .ok (value.map (entries.set name))) true ∅ s
      else .error (mistyped "a map" b s))
    (by
      intro b s value rest h
      split at h
      · exact Nat.le_of_lt (members_length h)
      · simp at h)

/-! ## Choices -/

/-- The value of one of several names. -/
def choose (choices : List (String × α)) (name : String) : Except ReadError α :=
  match choices.lookup name with
  | some value => .ok value
  | none => .error (.unknownChoice name (choices.map Prod.fst))

/-- What is left after an object that holds a single member has been read up to its end. -/
def closeChoice (s : List UInt8) : Except ReadError (List UInt8) :=
  match skipSpace s with
  | [] => .error (.malformed .endInObject)
  | b :: rest => if b = byte '\x7d' then .ok rest else .error (.malformed .expectedValue)

theorem closeChoice_length {s rest : List UInt8} (h : closeChoice s = .ok rest) :
    rest.length < s.length := by
  unfold closeChoice at h
  split at h
  · simp at h
  next b after hskip =>
    split at h
    · simp only [Except.ok.injEq] at h
      exact h ▸ length_of_skipSpace hskip
    · simp at h

/-- The name in an object that spells out a choice, after its opening brace. -/
def choiceName (s : List UInt8) : Except ReadError (String × List UInt8) :=
  match skipSpace s with
  | [] => .error (.malformed .endInValue)
  | b :: rest =>
    if b = byte '"' then readString rest
    else if b = byte '\x7d' then .error (.malformed .expectedValue)
    else .error (.malformed .nameNotString)

theorem choiceName_length {s rest : List UInt8} {name : String}
    (h : choiceName s = .ok (name, rest)) : rest.length < s.length := by
  unfold choiceName at h
  split at h
  · simp at h
  next b after hskip =>
    have := length_of_skipSpace hskip
    split at h
    · have := readString_length h
      omega
    · split at h <;> simp at h

/-- A choice written as an object: its name with the value null, after the opening brace. -/
def choiceObject (choices : List (String × α)) (s : List UInt8) :
    Except ReadError (α × List UInt8) := do
  let (name, rest) ← choiceName s
  let value ← choose choices name
  let rest ← readColon rest
  let ((), rest) ← null.run rest
  let rest ← closeChoice rest
  return (value, rest)

theorem choiceObject_length {choices : List (String × α)} {s rest : List UInt8} {value : α}
    (h : choiceObject choices s = .ok (value, rest)) : rest.length < s.length := by
  unfold choiceObject at h
  simp only [bind, Except.bind, pure, Except.pure] at h
  split at h
  · simp at h
  next hname =>
    split at h
    · simp at h
    · split at h
      · simp at h
      next hcolon =>
        split at h
        · simp at h
        next hnull =>
          split at h
          · simp at h
          next hclose =>
            simp only [Except.ok.injEq, Prod.mk.injEq] at h
            have := choiceName_length hname
            have := readColon_length hcolon
            have := null.shortens hnull
            have := closeChoice_length hclose
            have := congrArg List.length h.2
            omega

/-- Reads one of several names: a string, or an object whose only member has that name. -/
def choice (choices : List (String × α)) : Reader α :=
  onFirst
    (fun b s =>
      if b = byte '"' then
        match readString s with
        | .error e => .error e
        | .ok (name, rest) => (choose choices name).map (·, rest)
      else if b = byte '\x7b' then choiceObject choices s
      else .error (.malformed .expectedValue))
    (by
      intro b s value rest h
      split at h
      · split at h
        · simp at h
        next hread =>
          rw [length_of_map_ok h]
          exact Nat.le_of_lt (readString_length hread)
      · split at h
        · exact Nat.le_of_lt (choiceObject_length h)
        · simp at h)

end Reader

end Entitlement.Json
