import Entitlement.Json.Record
import Entitlement.Proofs.Json.Reading

/-! # What all results of a reader have in common

A property that every value of a reader has is kept by whatever is built from the reader. For
arrays, objects and records the property is an invariant of the state: the start has it, and so has
the state after each element or member. What is true of the results of all documents is proved in
this way, since nothing has to be known of a document but that it was read.
-/

namespace Entitlement.Json

variable {α β σ : Type}

namespace Reader

/-- Whatever a reader reads has a property. -/
def Yields (reader : Reader α) (p : α → Prop) : Prop :=
  ∀ s value rest, reader.run s = .ok (value, rest) → p value

theorem Yields.read {reader : Reader α} {p : α → Prop} (hyields : reader.Yields p)
    {document : List UInt8} {value : α} (hread : reader.read document = .ok value) : p value := by
  unfold Reader.read at hread
  split at hread
  next => cases hread
  next value' rest hrun =>
    split at hread
    next =>
      cases hread
      exact hyields _ _ _ hrun
    next => cases hread

theorem Yields.check {reader : Reader α} {p : α → Prop} {q : β → Prop}
    {f : α → Except ReadError β} (hyields : reader.Yields p)
    (hchecked : ∀ value result, p value → f value = .ok result → q result) :
    (reader.check f).Yields q := by
  intro s result rest hrun
  simp only [Reader.check] at hrun
  split at hrun
  next => cases hrun
  next value after hvalue =>
    cases hresult : f value with
    | error e => simp [hresult, Except.map] at hrun
    | ok result' =>
        simp only [hresult, Except.map, Except.ok.injEq, Prod.mk.injEq] at hrun
        obtain ⟨rfl, -⟩ := hrun
        exact hchecked _ _ (hyields _ _ _ hvalue) hresult

theorem Yields.map {reader : Reader α} {p : α → Prop} {q : β → Prop} {f : α → β}
    (hyields : reader.Yields p) (hmapped : ∀ value, p value → q (f value)) :
    (reader.map f).Yields q := by
  refine hyields.check fun value result hvalue hresult => ?_
  cases hresult
  exact hmapped value hvalue

theorem yields_true (reader : Reader α) : reader.Yields fun _ => True :=
  fun _ _ _ _ => trivial

/-- The members of an object keep what each of them keeps. -/
theorem members_keep {field : σ → String → Except ReadError (Reader σ)} {p : σ → Prop}
    (hfield : ∀ state name reader, p state → field state name = .ok reader → reader.Yields p)
    {isFirst : Bool} {state result : σ} {s rest : List UInt8} (hstate : p state)
    (hmembers : members field isFirst state s = .ok (result, rest)) : p result := by
  fun_induction members field isFirst state s with
  | case1 | case3 | case4 | case5 => cases hmembers
  | case2 =>
      cases hmembers
      exact hstate
  | case6 isFirst state s name after _ reader hreader _ _ next last hvalue ih =>
      exact ih (hfield state name reader hstate hreader _ _ _ hvalue) hmembers

end Reader

namespace Record

variable {record : Record σ} {p : σ → Prop}

theorem values_keep
    (hfield : ∀ field ∈ record.fields, ∀ draft, p draft → (field.read draft).Yields p)
    {fields : List (Field σ)} (hfields : fields ⊆ record.fields) {draft result : σ} {index : Nat}
    {s rest : List UInt8} (hdraft : p draft)
    (hvalues : record.values draft index fields s = .ok (result, rest)) : p result := by
  induction fields generalizing draft index s with
  | nil =>
      cases hvalues
      exact hdraft
  | cons field more ih =>
      obtain ⟨hfirst, hmore⟩ := List.cons_subset.mp hfields
      unfold values at hvalues
      split at hvalues
      next => cases hvalues
      next =>
        split at hvalues
        next => cases hvalues
        next => exact ih hmore hdraft hvalues
      next =>
        split at hvalues
        next => cases hvalues
        next hvalue => exact ih hmore (hfield field hfirst _ hdraft _ _ _ hvalue) hvalues

theorem member_yields
    (hfield : ∀ field ∈ record.fields, ∀ draft, p draft → (field.read draft).Yields p)
    {draft : σ} {name : String} {reader : Reader σ} (hdraft : p draft)
    (hreader : record.member draft name = .ok reader) : reader.Yields p := by
  unfold member at hreader
  split at hreader
  next =>
    cases hreader
    exact (Reader.yields_true Reader.skip).map fun _ _ => hdraft
  next field hfound =>
    split at hreader
    next => cases hreader
    next =>
      cases hreader
      exact hfield field (List.mem_of_find?_eq_some hfound) draft hdraft

/-- The drafts of a record, be they read from an object or from an array, have what the start has
and every field keeps. -/
theorem yields (hstart : p record.start)
    (hfield : ∀ field ∈ record.fields, ∀ draft, p draft → (field.read draft).Yields p) :
    record.reader.Yields p := by
  intro s result rest hrun
  change Reader.runOnFirst record.afterFirst s = _ at hrun
  unfold Reader.runOnFirst at hrun
  split at hrun
  next => cases hrun
  next b after _ =>
    unfold afterFirst at hrun
    split at hrun
    next =>
      unfold ofArray at hrun
      split at hrun
      next => cases hrun
      next draft last hvalues =>
        cases hclose : closeArray last with
        | error e => simp [hclose, Except.map] at hrun
        | ok closed =>
            simp only [hclose, Except.map, Except.ok.injEq, Prod.mk.injEq] at hrun
            obtain ⟨rfl, -⟩ := hrun
            exact values_keep hfield (List.Subset.refl _) hstart hvalues
    next =>
      split at hrun
      next =>
        unfold ofObject at hrun
        split at hrun
        next => cases hrun
        next draft last hmembers =>
          have hdraft : p draft :=
            Reader.members_keep (fun _ _ _ => member_yields hfield) hstart hmembers
          unfold complete at hrun
          split at hrun
          next =>
            simp only [Except.map, Except.ok.injEq, Prod.mk.injEq] at hrun
            obtain ⟨rfl, -⟩ := hrun
            exact hdraft
          next => cases hrun
      next => cases hrun

end Record

end Entitlement.Json
