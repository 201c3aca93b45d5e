import Mathlib.Algebra.Group.Nat.Defs
import Entitlement.Plan.Limits
import Entitlement.Proofs.Ascending
import Entitlement.Proofs.Text.Order

/-! # Limits that can be signed

A ceiling can be signed if a double-precision number stands for it and for nothing else, that is
below 2^53. Of several ceilings that are too large the one is reported whose name comes first by its
bytes.
-/

namespace Entitlement.Plan.Limits

/-- Limits with the same ceilings are equal. -/
theorem eq_of_get? {limits limits' : Limits}
    (hsame : ∀ name ceiling, limits.get? name = some ceiling ↔ limits'.get? name = some ceiling) :
    limits = limits' := by
  cases limits
  cases limits'
  exact congrArg Limits.mk (Table.eq_of_get? hsame)

theorem mem_entries_iff {limits : Limits} {name : String} {ceiling : UInt64} :
    (name, ceiling) ∈ limits.entries ↔ limits.get? name = some ceiling :=
  Table.get?_eq_some_iff.symm

/-- Every ceiling lies below 2^53. -/
def IsEncodable (limits : Limits) : Prop :=
  ∀ entry ∈ limits.entries, entry.2.toNat ≤ 2 ^ 53 - 1

instance (limits : Limits) : Decidable limits.IsEncodable :=
  inferInstanceAs (Decidable (∀ entry ∈ _, _))

theorem maxEncodable_lt_iff {ceiling : UInt64} :
    maxEncodable < ceiling ↔ 2 ^ 53 - 1 < ceiling.toNat := by
  rw [UInt64.lt_iff_toNat_lt]
  rfl

theorem firstUnencodable?_eq_none_iff {limits : Limits} :
    limits.firstUnencodable? = none ↔ limits.IsEncodable := by
  simp only [firstUnencodable?, List.find?_eq_none, decide_eq_true_eq, maxEncodable_lt_iff,
    Nat.not_lt, IsEncodable]

/-- The entry that is reported is the first one, in the order of the names, whose ceiling is too
large. -/
theorem firstUnencodable?_eq_some_iff {limits : Limits} {entry : String × UInt64} :
    limits.firstUnencodable? = some entry ↔
      ∃ before after, limits.entries = before ++ entry :: after ∧ 2 ^ 53 - 1 < entry.2.toNat ∧
        ∀ other ∈ before, other.2.toNat ≤ 2 ^ 53 - 1 := by
  simp only [firstUnencodable?, List.find?_eq_some_iff_append, decide_eq_true_eq, Bool.not_eq_true',
    decide_eq_false_iff_not, maxEncodable_lt_iff, Nat.not_lt]
  constructor
  · rintro ⟨hlarge, before, after, hentries, hbefore⟩
    exact ⟨before, after, hentries, hlarge, hbefore⟩
  · rintro ⟨before, after, hentries, hlarge, hbefore⟩
    exact ⟨hlarge, before, after, hentries, hbefore⟩

/-- The ceiling that is reported is too large, and every other one that is has a name behind its
name. -/
theorem firstUnencodable?_eq_some {limits : Limits} {name : String} {ceiling : UInt64}
    (hfirst : limits.firstUnencodable? = some (name, ceiling)) :
    (name, ceiling) ∈ limits.entries ∧ 2 ^ 53 - 1 < ceiling.toNat ∧
      ∀ entry ∈ limits.entries, 2 ^ 53 - 1 < entry.2.toNat →
        entry = (name, ceiling) ∨ Text.bytes name < Text.bytes entry.1 := by
  obtain ⟨before, after, hentries, hlarge, hbefore⟩ := firstUnencodable?_eq_some_iff.mp hfirst
  have hascending := limits.table.isAscending
  change limits.entries.Pairwise _ at hascending
  rw [hentries] at hascending ⊢
  refine ⟨List.mem_append_right _ List.mem_cons_self, hlarge, ?_⟩
  intro entry hentry hexceeds
  rcases List.mem_append.mp hentry with hsmaller | hrest
  · -- What comes before the first ceiling that is too large is not too large.
    exact absurd hexceeds (Nat.not_lt.mpr (hbefore entry hsmaller))
  · rcases List.mem_cons.mp hrest with rfl | hlater
    · exact .inl rfl
    · obtain ⟨-, hcons, -⟩ := List.pairwise_append.mp hascending
      exact .inr (Text.bytes_lt ((List.pairwise_cons.mp hcons).1 entry hlater))

end Entitlement.Plan.Limits
