import Entitlement.Json.Compound

/-! # Records

A record has a fixed list of members. It is read from an object, whose members may come in any order
and among others that are passed over, or from an array that holds the values in the order of the
list. No member may be given twice, so a document never offers two values for one member.
-/

namespace Entitlement.Json

/-- A member of a record that is read into a draft. -/
structure Field (σ : Type) where
  name : String
  isRequired : Bool
  isGiven : σ → Bool
  read : σ → Reader σ

/-- What is read into a draft, and how messages call it. -/
structure Record (σ : Type) where
  title : String
  start : σ
  fields : List (Field σ)

namespace Record

variable {σ : Type} (record : Record σ)

/-- The reader for the value of a member. -/
def member (draft : σ) (name : String) : Except ReadError (Reader σ) :=
  match record.fields.find? fun field => field.name == name with
  | none => .ok (Reader.skip.map fun () => draft)
  | some field =>
    if field.isGiven draft then .error (.duplicateMember name) else .ok (field.read draft)

/-- A draft in which every required member is given. -/
def complete (draft : σ) : Except ReadError σ :=
  match record.fields.find? fun field => field.isRequired && !field.isGiven draft with
  | none => .ok draft
  | some field => .error (.missingMember field.name)

/-- Reads the values of the remaining fields from an array, of which `index` values are read. -/
def values (draft : σ) (index : Nat) (fields : List (Field σ)) (s : List UInt8) :
    Except ReadError (σ × List UInt8) :=
  match fields with
  | [] => .ok (draft, s)
  | field :: more =>
    match nextElement (index == 0) s with
    | .error e => .error e
    | .ok none =>
      if field.isRequired then
        .error (.wrongLength index s!"{record.title} with {record.fields.length} elements")
      else values draft (index + 1) more s
    | .ok (some rest) =>
      match (field.read draft).run rest with
      | .error e => .error e
      | .ok (draft, after) => values draft (index + 1) more after

theorem values_length {draft result : σ} {index : Nat} {fields : List (Field σ)}
    {s rest : List UInt8} (h : record.values draft index fields s = .ok (result, rest)) :
    rest.length ≤ s.length := by
  induction fields generalizing draft index s with
  | nil =>
    simp only [values, Except.ok.injEq, Prod.mk.injEq] at h
    exact h.2 ▸ Nat.le_refl _
  | cons field more ih =>
    unfold values at h
    split at h
    · simp at h
    · split at h
      · simp at h
      · exact ih h
    next hnext =>
      split at h
      · simp at h
      next hvalue =>
        have := ih h
        have := nextElement_length hnext
        have := (field.read draft).shortens hvalue
        omega

/-- Reads a draft from an array, after its opening bracket. -/
def ofArray (s : List UInt8) : Except ReadError (σ × List UInt8) :=
  match record.values record.start 0 record.fields s with
  | .error e => .error e
  | .ok (draft, rest) => (closeArray rest).map (draft, ·)

/-- Reads a draft from an object, after its opening brace. -/
def ofObject (s : List UInt8) : Except ReadError (σ × List UInt8) :=
  match Reader.members record.member true record.start s with
  | .error e => .error e
  | .ok (draft, rest) => (record.complete draft).map (·, rest)

/-- Reads a draft after its opening byte. -/
def afterFirst (b : UInt8) (s : List UInt8) : Except ReadError (σ × List UInt8) :=
  if b = byte '[' then record.ofArray s
  else if b = byte '\x7b' then record.ofObject s
  else .error (Reader.mistyped record.title b s)

theorem afterFirst_length {b : UInt8} {s rest : List UInt8} {value : σ}
    (h : record.afterFirst b s = .ok (value, rest)) : rest.length ≤ s.length := by
  unfold afterFirst at h
  split at h
  · unfold ofArray at h
    split at h
    · simp at h
    next draft after hvalues =>
      have := record.values_length hvalues
      cases hclose : closeArray after with
      | error e => simp [hclose, Except.map] at h
      | ok last =>
        simp only [hclose, Except.map, Except.ok.injEq, Prod.mk.injEq] at h
        have := closeArray_length hclose
        have := congrArg List.length h.2
        omega
  · split at h
    · unfold ofObject at h
      split at h
      · simp at h
      next draft after hmembers =>
        rw [length_of_map_ok h]
        exact Nat.le_of_lt (Reader.members_length hmembers)
    · simp at h

/-- Reads a draft. -/
def reader : Reader σ :=
  .onFirst record.afterFirst record.afterFirst_length

end Record

end Entitlement.Json
