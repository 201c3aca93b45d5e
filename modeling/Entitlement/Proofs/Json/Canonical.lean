import Entitlement.Json.Canonical

/-! # The canonical order sorts

The comparison of names is a linear order of their code units, so that the canonical order of some
members is the one ascending list of them. An ascending list of the same members is therefore known
to be their canonical order without any sorting.
-/

namespace Entitlement.Json

theorem unitsPrecede_cons {a b : Nat} {as bs : List Nat} :
    unitsPrecede (a :: as) (b :: bs) = true ↔
      a < b ∨ a = b ∧ unitsPrecede as bs = true := by
  rw [unitsPrecede, Bool.or_eq_true, Bool.and_eq_true, decide_eq_true_iff, decide_eq_true_iff]

theorem unitsPrecede_trans {as bs cs : List Nat} (hab : unitsPrecede as bs = true)
    (hbc : unitsPrecede bs cs = true) : unitsPrecede as cs = true := by
  induction as generalizing bs cs with
  | nil => rfl
  | cons a as ih =>
      cases bs with
      | nil => cases hab
      | cons b bs =>
          cases cs with
          | nil => cases hbc
          | cons c cs =>
              rw [unitsPrecede_cons] at hab hbc ⊢
              rcases hab with hab | ⟨rfl, hab⟩
              · rcases hbc with hbc | ⟨rfl, -⟩
                · exact .inl (Nat.lt_trans hab hbc)
                · exact .inl hab
              · exact hbc.imp_right fun ⟨heq, hbc⟩ => ⟨heq, ih hab hbc⟩

theorem unitsPrecede_total (as bs : List Nat) :
    unitsPrecede as bs = true ∨ unitsPrecede bs as = true := by
  induction as generalizing bs with
  | nil => exact .inl rfl
  | cons a as ih =>
      cases bs with
      | nil => exact .inr rfl
      | cons b bs =>
          rw [unitsPrecede_cons, unitsPrecede_cons]
          rcases Nat.lt_trichotomy a b with hlt | rfl | hgt
          · exact .inl (.inl hlt)
          · exact (ih bs).imp (fun h => .inr ⟨rfl, h⟩) fun h => .inr ⟨rfl, h⟩
          · exact .inr (.inl hgt)

theorem unitsPrecede_antisymm {as bs : List Nat} (hab : unitsPrecede as bs = true)
    (hba : unitsPrecede bs as = true) : as = bs := by
  induction as generalizing bs with
  | nil =>
      cases bs with
      | nil => rfl
      | cons b bs => cases hba
  | cons a as ih =>
      cases bs with
      | nil => cases hab
      | cons b bs =>
          rw [unitsPrecede_cons] at hab hba
          have heq : a = b := by omega
          subst heq
          obtain ⟨-, hab⟩ := hab.resolve_left (Nat.lt_irrefl a)
          obtain ⟨-, hba⟩ := hba.resolve_left (Nat.lt_irrefl a)
          rw [ih hab hba]

theorem precedes_trans (a b c : Member) (hab : precedes a b = true) (hbc : precedes b c = true) :
    precedes a c = true :=
  unitsPrecede_trans hab hbc

theorem precedes_total (a b : Member) : (precedes a b || precedes b a) = true :=
  (Bool.or_eq_true _ _).mpr (unitsPrecede_total (units a.1) (units b.1))

/-- One member stands before another one with another name. -/
def Before (a b : Member) : Prop :=
  precedes a b = true ∧ units a.1 ≠ units b.1

instance (a b : Member) : Decidable (Before a b) :=
  inferInstanceAs (Decidable (_ ∧ _))

theorem canonicalOrder_perm (ms : List Member) : (canonicalOrder ms).Perm ms :=
  List.mergeSort_perm ms precedes

/-- Canonical order is ascending. -/
theorem canonicalOrder_pairwise (ms : List Member) :
    (canonicalOrder ms).Pairwise fun a b => precedes a b = true :=
  List.pairwise_mergeSort precedes_trans precedes_total ms

/-- Members of an ascending list with the same name are the same member. -/
theorem eq_of_units_eq {ms : List Member} (hascending : ms.Pairwise Before) {a b : Member}
    (ha : a ∈ ms) (hb : b ∈ ms) (hunits : units a.1 = units b.1) : a = b := by
  refine List.Pairwise.forall_of_forall_of_flip
    (R := fun x y => units x.1 = units y.1 → x = y) (fun x _ _ => rfl) ?_ ?_ ha hb hunits
  · exact hascending.imp fun hbefore heq => absurd heq hbefore.2
  · exact hascending.imp fun hbefore heq => absurd heq.symm hbefore.2

/-- An ascending list of the same members is their canonical order. -/
theorem canonicalOrder_eq {ms sorted : List Member} (hperm : sorted.Perm ms)
    (hascending : sorted.Pairwise Before) : canonicalOrder ms = sorted := by
  have hsorted := (canonicalOrder_perm ms).trans hperm.symm
  refine List.Perm.eq_of_pairwise ?_ (canonicalOrder_pairwise ms)
    (hascending.imp And.left) hsorted
  -- Members that stand before each other have the same name, and the list has it once.
  intro a b ha hb hab hba
  exact eq_of_units_eq hascending (hsorted.subset ha) hb (unitsPrecede_antisymm hab hba)

/-! ## Names and their code units -/

/-- Code units are taken apart into characters in one way only. -/
theorem charUnits_append_inj {c d : Char} {xs ys : List Nat}
    (heq : charUnits c ++ xs = charUnits d ++ ys) : c = d ∧ xs = ys := by
  have hc : c.toNat < 0xD800 ∨ 0xDFFF < c.toNat ∧ c.toNat < 0x110000 := c.valid
  have hd : d.toNat < 0xD800 ∨ 0xDFFF < d.toNat ∧ d.toNat < 0x110000 := d.valid
  -- The units of a pair are surrogates, which are no characters themselves.
  unfold charUnits at heq
  split at heq
  next =>
    split at heq
    next =>
      obtain ⟨hunit, hrest⟩ := List.cons.inj heq
      exact ⟨Char.toNat_inj.mp hunit, hrest⟩
    next =>
      obtain ⟨hunit, -⟩ := List.cons.inj heq
      omega
  next =>
    split at heq
    next =>
      obtain ⟨hunit, -⟩ := List.cons.inj heq
      omega
    next =>
      obtain ⟨hhigh, heq⟩ := List.cons.inj heq
      obtain ⟨hlow, hrest⟩ := List.cons.inj heq
      exact ⟨Char.toNat_inj.mp (by omega), hrest⟩

theorem charUnits_ne_nil (c : Char) : charUnits c ≠ [] := by
  unfold charUnits
  split <;> exact List.cons_ne_nil _ _

/-- Different texts have different code units. -/
theorem units_injective {a b : String} (heq : units a = units b) : a = b := by
  apply String.toList_injective
  unfold units at heq
  generalize a.toList = cs at heq ⊢
  generalize b.toList = ds at heq ⊢
  induction cs generalizing ds with
  | nil =>
      cases ds with
      | nil => rfl
      | cons d ds =>
          exact absurd (List.append_eq_nil_iff.mp heq.symm).1 (charUnits_ne_nil d)
  | cons c cs ih =>
      cases ds with
      | nil => exact absurd (List.append_eq_nil_iff.mp heq).1 (charUnits_ne_nil c)
      | cons d ds =>
          obtain ⟨rfl, hrest⟩ := charUnits_append_inj heq
          rw [ih ds hrest]

/-- The comparison of code units is the order of lists. -/
theorem lt_of_unitsPrecede {as bs : List Nat} (hle : unitsPrecede as bs = true) (hne : as ≠ bs) :
    as < bs := by
  induction as generalizing bs with
  | nil =>
      cases bs with
      | nil => exact absurd rfl hne
      | cons b bs => exact List.nil_lt_cons b bs
  | cons a as ih =>
      cases bs with
      | nil => cases hle
      | cons b bs =>
          rw [List.cons_lt_cons_iff]
          rcases unitsPrecede_cons.mp hle with hlt | ⟨rfl, hrest⟩
          · exact .inl hlt
          · exact .inr ⟨rfl, ih hrest fun heq => hne (by rw [heq])⟩

/-- Members with different names are strictly ascending in canonical order. -/
theorem canonicalOrder_ascending {ms : List Member}
    (hnames : ms.Pairwise fun a b => a.1 ≠ b.1) :
    (canonicalOrder ms).Pairwise fun a b => units a.1 < units b.1 := by
  have hdistinct : (canonicalOrder ms).Pairwise fun a b => a.1 ≠ b.1 :=
    (canonicalOrder_perm ms).symm.pairwise hnames fun hne => hne.symm
  refine ((canonicalOrder_pairwise ms).and hdistinct).imp ?_
  rintro a b ⟨hle, hne⟩
  exact lt_of_unitsPrecede hle fun heq => hne (units_injective heq)

end Entitlement.Json
