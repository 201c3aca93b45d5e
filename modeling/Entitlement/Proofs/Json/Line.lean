import Entitlement.Proofs.Json.Text

/-! # Documents on one line

A written string escapes every control character, so no newline is ever written, whatever the string
holds. An object of such values stays on one line.
-/

namespace Entitlement.Json

/-- A text without a newline. -/
def IsLine (text : String) : Prop :=
  '\n' ∉ text.toList

instance (text : String) : Decidable (IsLine text) :=
  inferInstanceAs (Decidable (¬ _ ∈ _))

theorem IsLine.append {first second : String} (hfirst : IsLine first) (hsecond : IsLine second) :
    IsLine (first ++ second) := by
  rw [IsLine, String.toList_append, List.mem_append, not_or]
  exact ⟨hfirst, hsecond⟩

theorem isLine_intercalate {separator : String} (hseparator : IsLine separator)
    {texts : List String} (htexts : ∀ text ∈ texts, IsLine text) :
    IsLine (String.intercalate separator texts) := by
  induction texts with
  | nil => exact List.not_mem_nil
  | cons text texts ih =>
      obtain ⟨hfirst, hmore⟩ := List.forall_mem_cons.mp htexts
      cases texts with
      | nil => rwa [String.intercalate_singleton]
      | cons next texts =>
          rw [String.intercalate_cons_cons]
          exact (hfirst.append hseparator).append (ih hmore)

theorem newline_ne_hexDigit : ∀ value < 16, '\n' ≠ hexDigit value := by
  decide

/-- No character is written with a newline. -/
theorem newline_not_mem_escape (c : Char) : '\n' ∉ escape c := by
  rcases escape_cases c with ⟨letter, hletter, hescape, hvalue⟩ | ⟨hcontrol, hescape⟩ |
    ⟨-, -, hcontrol, hescape⟩
  · -- A newline is none of the letters of short escapes.
    have hnone : shortEscape? '\n'.toUInt8 = none := by decide
    have hne : '\n' ≠ letter := by
      rintro rfl
      rw [hnone] at hvalue
      cases hvalue
    simp [hescape, hne]
  · have hhigh := newline_ne_hexDigit (c.toNat / 16) (by omega)
    have hlow := newline_ne_hexDigit (c.toNat % 16) (by omega)
    simp [hescape, hhigh, hlow]
  · rw [hescape, List.mem_singleton]
    rintro rfl
    exact hcontrol (by decide)

theorem isLine_string (s : String) : IsLine (string s) := by
  have hquote : IsLine "\"" := by decide
  have hescaped : IsLine (String.ofList (s.toList.flatMap escape)) := by
    rw [IsLine, String.toList_ofList, List.mem_flatMap]
    rintro ⟨c, -, hc⟩
    exact newline_not_mem_escape c hc
  exact (hquote.append hescaped).append hquote

/-- An object of values on one line is on one line. -/
theorem isLine_object {ms : List Member} (hvalues : ∀ m ∈ ms, IsLine m.2) : IsLine (object ms) := by
  have hopening : IsLine "\x7b" := by decide
  have hclosing : IsLine "\x7d" := by decide
  have hcolon : IsLine ":" := by decide
  refine (hopening.append (isLine_intercalate (by decide) ?_)).append hclosing
  intro text htext
  obtain ⟨m, hm, rfl⟩ := List.mem_map.mp htext
  exact ((isLine_string m.1).append hcolon).append (hvalues m hm)

end Entitlement.Json
