import Mathlib.Data.List.Perm.Basic
import Entitlement.Json.Record
import Entitlement.Proofs.Ascending
import Entitlement.Proofs.Json.Text

/-! # Readers take what writers write

A reader takes a text if it reads the same value from it whatever follows, as long as that does not
continue the value. Taking is lifted from strings and numbers through arrays, tables and records;
the members of an object may be written in any order.
-/

namespace Entitlement.Json

open Text

namespace Reader

variable {α β σ : Type}

/-- A reader takes a text for a value from the front of any text that ends the value. -/
def Takes (reader : Reader α) (text : String) (value : α) : Prop :=
  ∀ rest, EndsValue rest → reader.run (bytes text ++ rest) = .ok (value, rest)

theorem Takes.check {reader : Reader α} {text : String} {value : α} {result : β}
    {f : α → Except ReadError β} (htext : reader.Takes text value) (hvalue : f value = .ok result) :
    (reader.check f).Takes text result := by
  intro rest hrest
  simp only [Reader.check, htext rest hrest, hvalue, Except.map]

theorem Takes.map {reader : Reader α} {text : String} {value : α} (f : α → β)
    (htext : reader.Takes text value) : (reader.map f).Takes text (f value) :=
  htext.check rfl

/-- A text that is taken is read as a whole document. -/
theorem Takes.read {reader : Reader α} {text : String} {value : α}
    (htext : reader.Takes text value) : reader.read (bytes text) = .ok value := by
  have hrun := htext [] endsValue_nil
  rw [List.append_nil] at hrun
  simp only [Reader.read, hrun]
  exact if_pos rfl

theorem skipSpace_cons {b : UInt8} (hb : isSpace b = false) (rest : List UInt8) :
    skipSpace (b :: rest) = b :: rest := by
  simp only [skipSpace, List.dropWhile_cons, hb, Bool.false_eq_true, if_false]

/-- A reader that looks at the first byte is given it where no blanks are in front of it. -/
theorem run_cons {reader : Reader α}
    {step : UInt8 → List UInt8 → Except ReadError (α × List UInt8)}
    (hrun : reader.run = runOnFirst step) {b : UInt8} (hb : isSpace b = false)
    (rest : List UInt8) : reader.run (b :: rest) = step b rest := by
  simp only [hrun, runOnFirst, skipSpace_cons hb]

/-! ## Values without parts -/

theorem takes_text (expected : String) (s : String) : (text expected).Takes (Json.string s) s := by
  intro rest _
  rw [bytes_string, List.cons_append, run_cons rfl (by decide), if_pos rfl, List.append_assoc]
  exact readString_escapes s rest

theorem takes_string (s : String) : string.Takes (Json.string s) s :=
  takes_text "a string" s

theorem takes_natural {bound n : Nat} (expected : String) (hbound : bound ≤ wordBound)
    (hn : n < bound) : (natural bound expected).Takes (nat n) n := by
  refine @Takes.check _ _ _ _ (Number.natural n) _ _ (fun rest hrest => ?_) (if_pos hn)
  -- The first byte decides which scanner is asked: it is a digit, so no blank and no sign.
  have hread := readNumber_nat (Nat.lt_of_lt_of_le hn hbound) hrest
  have hall := (denotes_toString n).isDigit
  change ∀ b ∈ bytes (nat n), Text.IsDigit b at hall
  revert hread hall
  cases hdigits : bytes (nat n) with
  | nil =>
      rw [bytes_nat, List.map_eq_nil_iff] at hdigits
      exact absurd hdigits Nat.toDigits_ne_nil
  | cons b more =>
      intro hread hall
      have hb := hall b List.mem_cons_self
      have hdigit := isDigit_iff.mpr hb
      have hminus : b ≠ byte '-' := by
        rintro rfl
        exact absurd hdigit (by decide)
      rw [List.cons_append, run_cons rfl (isSpace_of_isDigit hb), if_neg hminus, if_pos hdigit]
      exact hread

theorem takes_word64 (w : UInt64) : word64.Takes (nat w.toNat) w := by
  have h := (takes_natural "u64" (Nat.le_refl _) w.toNat_lt_size).map UInt64.ofNat
  rwa [UInt64.ofNat_toNat] at h

theorem takes_word32 (w : UInt32) : word32.Takes (nat w.toNat) w := by
  have h := (takes_natural "u32" (by decide) w.toNat_lt_size).map UInt32.ofNat
  rwa [UInt32.ofNat_toNat] at h

theorem takes_choice {choices : List (String × α)} {name : String} {value : α}
    (hname : choices.lookup name = some value) :
    (choice choices).Takes (Json.string name) value := by
  intro rest _
  rw [bytes_string, List.cons_append, run_cons rfl (by decide), if_pos rfl, List.append_assoc]
  have hread := readString_escapes name rest
  rw [List.singleton_append, hread]
  simp only [choose, hname, Except.map]

/-! ## Arrays -/

/-- The bytes of values after commas. -/
def listed (values : List String) : List UInt8 :=
  values.flatMap fun value => byte ',' :: bytes value

theorem bytes_intercalate (value : String) (values : List String) :
    bytes (String.intercalate "," (value :: values)) = bytes value ++ listed values := by
  have hcomma : bytes "," = [byte ','] := rfl
  induction values generalizing value with
  | nil => simp [listed]
  | cons next values ih =>
      rw [String.intercalate_cons_cons, bytes_append, bytes_append, ih, hcomma, listed, listed,
        List.flatMap_cons, List.append_assoc]
      rfl

/-- A text that starts with the opening byte of a value. -/
def Opens (text : String) : Prop :=
  ∃ b more, bytes text = b :: more ∧ isSpace b = false ∧ b ≠ byte ']'

theorem opens_string (s : String) : Opens (Json.string s) :=
  ⟨_, _, bytes_string s, by decide, by decide⟩

theorem nextElement_first {text : String} (hopens : Opens text) (rest : List UInt8) :
    nextElement true (bytes text ++ rest) = .ok (some (bytes text ++ rest)) := by
  obtain ⟨b, more, htext, hspace, hclosing⟩ := hopens
  rw [htext, List.cons_append]
  simp only [nextElement, skipSpace_cons hspace, if_neg hclosing, if_true]

theorem nextElement_comma {text : String} (hopens : Opens text) (rest : List UInt8) :
    nextElement false (byte ',' :: (bytes text ++ rest)) = .ok (some (bytes text ++ rest)) := by
  obtain ⟨b, more, htext, hspace, hclosing⟩ := hopens
  have hcomma : isSpace (byte ',') = false := by decide
  have hcommaClosing : byte ',' ≠ byte ']' := by decide
  rw [htext, List.cons_append]
  simp only [nextElement, skipSpace_cons hcomma, skipSpace_cons hspace, Bool.false_eq_true,
    if_false, if_neg hcommaClosing, if_neg hclosing, if_true]

theorem endsValue_listed (values : List String) (closing : UInt8)
    (hclosing : closing = byte ']' ∨ closing = byte '\x7d') (rest : List UInt8) :
    EndsValue (listed values ++ closing :: rest) := by
  cases values with
  | nil => exact endsValue_cons (.inr hclosing)
  | cons value values => exact endsValue_cons (.inl rfl)

theorem elements_end (item : Reader α) (add : σ → α → σ) (isFirst : Bool) (state : σ)
    (rest : List UInt8) :
    elements item add isFirst state (byte ']' :: rest) = .ok (state, rest) := by
  have hnext : nextElement isFirst (byte ']' :: rest) = .ok none := rfl
  have hclose : closeArray (byte ']' :: rest) = .ok rest := rfl
  rw [elements]
  split
  next h => rw [hnext] at h; simp at h
  next => rw [hclose]; rfl
  next h => rw [hnext] at h; simp at h

theorem elements_cons {item : Reader α} {add : σ → α → σ} {isFirst : Bool} {state : σ}
    {s text after : List UInt8} {value : α} (hnext : nextElement isFirst s = .ok (some text))
    (hitem : item.run text = .ok (value, after)) :
    elements item add isFirst state s = elements item add false (add state value) after := by
  rw [elements]
  split
  next h => rw [hnext] at h; simp at h
  next h => rw [hnext] at h; simp at h
  next text' h =>
    rw [hnext, Except.ok.injEq, Option.some.injEq] at h
    subst h
    split
    next h => rw [hitem] at h; simp at h
    next value' after' h =>
      rw [hitem, Except.ok.injEq, Prod.mk.injEq] at h
      obtain ⟨rfl, rfl⟩ := h
      rfl

theorem elements_listed {item : Reader α} {add : σ → α → σ} {write : α → String}
    {values : List α} (htakes : ∀ value ∈ values, item.Takes (write value) value)
    (hopens : ∀ value ∈ values, Opens (write value)) (state : σ) (rest : List UInt8) :
    elements item add false state (listed (values.map write) ++ byte ']' :: rest) =
      .ok (values.foldl add state, rest) := by
  induction values generalizing state with
  | nil => exact elements_end item add false state rest
  | cons value values ih =>
      have hends := endsValue_listed (values.map write) (byte ']') (.inl rfl) rest
      have hnext := nextElement_comma (hopens value List.mem_cons_self)
        (listed (values.map write) ++ byte ']' :: rest)
      have hsplit : listed ((value :: values).map write) ++ byte ']' :: rest =
          byte ',' :: (bytes (write value) ++ (listed (values.map write) ++ byte ']' :: rest)) := by
        simp only [listed, List.map_cons, List.flatMap_cons, List.append_assoc, List.cons_append]
      rw [hsplit, elements_cons hnext (htakes value List.mem_cons_self _ hends), List.foldl_cons]
      exact ih (fun other hother => htakes other (List.mem_cons_of_mem _ hother))
        (fun other hother => hopens other (List.mem_cons_of_mem _ hother)) _

theorem bytes_array (values : List String) :
    bytes (array values) = byte '[' :: (bytes (String.intercalate "," values) ++ [byte ']']) := by
  have hopening : bytes "[" = [byte '['] := rfl
  have hclosing : bytes "]" = [byte ']'] := rfl
  rw [array, bytes_append, bytes_append, hopening, hclosing]
  rfl

/-- The elements of a written array are added in their order. -/
theorem elements_array {item : Reader α} {add : σ → α → σ} {write : α → String}
    {values : List α} (htakes : ∀ value ∈ values, item.Takes (write value) value)
    (hopens : ∀ value ∈ values, Opens (write value)) (state : σ) (rest : List UInt8) :
    elements item add true state
        (bytes (String.intercalate "," (values.map write)) ++ byte ']' :: rest) =
      .ok (values.foldl add state, rest) := by
  cases values with
  | nil => exact elements_end item add true state rest
  | cons value values =>
      have hends := endsValue_listed (values.map write) (byte ']') (.inl rfl) rest
      have hnext := nextElement_first (hopens value List.mem_cons_self)
        (listed (values.map write) ++ byte ']' :: rest)
      rw [List.map_cons, bytes_intercalate, List.append_assoc,
        elements_cons hnext (htakes value List.mem_cons_self _ hends), List.foldl_cons]
      exact elements_listed (fun other hother => htakes other (List.mem_cons_of_mem _ hother))
        (fun other hother => hopens other (List.mem_cons_of_mem _ hother)) _ rest

/-- A set of names is read back from the array of its names. -/
theorem takes_names (set : NameSet) : names.Takes (array (set.toList.map Json.string)) set := by
  intro rest _
  rw [bytes_array, List.cons_append, run_cons rfl (by decide), if_pos rfl, List.append_assoc,
    List.singleton_append, elements_array (fun s _ => takes_string s) (fun s _ => opens_string s)]
  exact congrArg (fun value => Except.ok (value, rest)) set.ofList_toList

end Reader

end Entitlement.Json
