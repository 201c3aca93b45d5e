import Entitlement.Proofs.Text.Blank
import Entitlement.Proofs.Text.Digits
import Entitlement.Text.Integer

/-! # Texts that spell numbers

A natural number is spelled with ASCII digits, of which there is at least one, and with no more than
a plus sign in front of them. Zeros in front of the other digits do not count, so a number has many
spellings; a spelling is read if its number fits, however long it is.
-/

namespace Entitlement.Text

/-- A text spells a number. -/
def SpellsNatural (text : String) (n : Nat) : Prop :=
  ∃ digits, (text.toList = digits ∨ text.toList = '+' :: digits) ∧ digits ≠ [] ∧
    (∀ c ∈ digits, c.isDigit = true) ∧ Nat.ofDigitChars 10 digits 0 = n

variable {limit value n : Nat} {overflow : IntegerError} {digits : List Char} {text : String}

/-- More digits never make a number smaller. -/
theorem le_ofDigitChars (digits : List Char) (value : Nat) :
    value ≤ Nat.ofDigitChars 10 digits value := by
  induction digits generalizing value with
  | nil => exact Nat.le_refl value
  | cons c digits ih =>
      rw [Nat.ofDigitChars_cons]
      exact Nat.le_trans (by omega) (ih _)

/-- A run of digits has the value of the number that it spells. -/
theorem decimalValue_eq (value : Nat) (digits : List Char) :
    decimalValue value digits = Nat.ofDigitChars 10 digits value := by
  induction digits generalizing value with
  | nil => rfl
  | cons c digits ih =>
      rw [Nat.ofDigitChars_cons, ← ih]
      rfl

theorem decimal?_eq_some_iff :
    decimal? digits = some n ↔
      digits ≠ [] ∧ (∀ c ∈ digits, c.isDigit = true) ∧ Nat.ofDigitChars 10 digits 0 = n := by
  unfold decimal?
  rw [Option.ite_none_right_eq_some, List.all_eq_true, Option.some.injEq, decimalValue_eq,
    and_assoc]

/-- Digits are read if the number that they continue fits; that it fits is looked at digit by
digit. -/
theorem readDigits_eq_ok_iff (hvalue : value ≤ limit) :
    readDigits limit overflow value digits = .ok n ↔
      (∀ c ∈ digits, c.isDigit = true) ∧ Nat.ofDigitChars 10 digits value = n ∧ n ≤ limit := by
  induction digits generalizing value with
  | nil =>
      rw [readDigits, Except.ok.injEq, Nat.ofDigitChars_nil]
      constructor
      · rintro rfl
        exact ⟨fun _ hc => absurd hc List.not_mem_nil, rfl, hvalue⟩
      · exact fun hread => hread.2.1
  | cons c digits ih =>
      rw [readDigits, List.forall_mem_cons, Nat.ofDigitChars_cons]
      split
      next hdigit =>
        dsimp only
        split
        next hlarge =>
          refine iff_of_false (fun hread => by cases hread) ?_
          rintro ⟨-, hsame, hle⟩
          have hmore := le_ofDigitChars digits (10 * value + (c.toNat - '0'.toNat))
          omega
        next hfits =>
          rw [ih (Nat.le_of_not_lt hfits)]
          simp only [hdigit, true_and]
      next hother =>
        refine iff_of_false (fun hread => by cases hread) ?_
        rintro ⟨⟨hdigit, -⟩, -⟩
        exact hother hdigit

theorem readMagnitude_eq_ok_iff :
    readMagnitude limit overflow digits = .ok n ↔
      digits ≠ [] ∧ (∀ c ∈ digits, c.isDigit = true) ∧ Nat.ofDigitChars 10 digits 0 = n ∧
        n ≤ limit := by
  cases digits with
  | nil => simp [readMagnitude]
  | cons c digits =>
      have hread := @readDigits_eq_ok_iff limit 0 n overflow (c :: digits) (Nat.zero_le limit)
      exact hread.trans (and_iff_right (List.cons_ne_nil c digits)).symm

/-- A text is read as the number that it spells, if that fits. -/
theorem naturalOfText_eq_ok_iff :
    naturalOfText limit text = .ok n ↔ SpellsNatural text n ∧ n ≤ limit := by
  unfold naturalOfText SpellsNatural
  split
  next hlist => simp [hlist]
  next rest hlist =>
    rw [readMagnitude_eq_ok_iff, hlist]
    constructor
    · rintro ⟨hne, hdigits, hvalue, hle⟩
      exact ⟨⟨rest, .inr rfl, hne, hdigits, hvalue⟩, hle⟩
    · rintro ⟨⟨digits, rfl | hsigned, hne, hdigits, hvalue⟩, hle⟩
      · -- A sign is no digit.
        exact absurd (hdigits '+' List.mem_cons_self) (by decide)
      · obtain rfl := (List.cons.inj hsigned).2
        exact ⟨hne, hdigits, hvalue, hle⟩
  next hempty hunsigned =>
    rw [readMagnitude_eq_ok_iff]
    constructor
    · rintro ⟨hne, hdigits, hvalue, hle⟩
      exact ⟨⟨text.toList, .inl rfl, hne, hdigits, hvalue⟩, hle⟩
    · rintro ⟨⟨digits, hlist | hsigned, hne, hdigits, hvalue⟩, hle⟩
      · rw [hlist]
        exact ⟨hne, hdigits, hvalue, hle⟩
      · exact absurd hsigned (hunsigned digits)

/-- A text spells no more than one number. -/
theorem SpellsNatural.unique {n' : Nat} (hn : SpellsNatural text n) (hn' : SpellsNatural text n') :
    n = n' := by
  have hread := naturalOfText_eq_ok_iff.mpr ⟨hn, Nat.le_max_left n n'⟩
  have hread' := naturalOfText_eq_ok_iff.mpr ⟨hn', Nat.le_max_right n n'⟩
  exact Except.ok.inj (hread.symm.trans hread')

theorem spellsNatural_toString (n : Nat) : SpellsNatural (toString n) n := by
  refine ⟨Nat.toDigits 10 n, .inl ?_, Nat.toDigits_ne_nil, fun _ hc => isDigit_of_mem_digits hc,
    Nat.ofDigitChars_ten_toDigits⟩
  rw [Nat.toString_eq_ofList_toDigits, String.toList_ofList]

theorem isBlank_of_isDigit {c : Char} (hc : c.isDigit = true) : isBlank c = false := by
  simp only [Char.isDigit, Bool.and_eq_true, decide_eq_true_eq] at hc
  have hlow : 48 ≤ c.toNat := hc.1
  have hhigh : c.toNat ≤ 57 := hc.2
  have hspace : c ≠ ' ' := by
    rintro rfl
    exact absurd hlow (by decide)
  simp only [isBlank, Bool.or_eq_false_iff, Bool.and_eq_false_iff, beq_eq_false_iff_ne,
    decide_eq_false_iff_not]
  refine ⟨⟨⟨⟨⟨⟨⟨⟨⟨⟨hspace, ?_⟩, ?_⟩, ?_⟩, ?_⟩, ?_⟩, ?_⟩, ?_⟩, ?_⟩, ?_⟩, ?_⟩ <;> omega

/-- There is nothing to trim from a number. -/
theorem trim_toString (n : Nat) : trim (toString n) = toString n := by
  refine trim_eq_self fun c hc => isBlank_of_isDigit (isDigit_of_mem_digits (n := n) ?_)
  rwa [Nat.toString_eq_ofList_toDigits, String.toList_ofList] at hc

end Entitlement.Text
