import Entitlement.Proofs.Json.Text

/-! # Documents as trees

A document spells a tree. The tree keeps the order of elements and members and the texts of numbers
and strings as they are written; what it leaves out are the insignificant blanks. The grammar is
that of JSON and says nothing about how documents are read. Strings need not be UTF-8 and numbers
may have any size.
-/

namespace Entitlement.Json

/-- A value with the texts of its numbers and of its strings, the latter without their quotes. -/
inductive Tree where
  | null
  | truth (value : Bool)
  | number (text : List UInt8)
  | string (body : List UInt8)
  | array (elements : List Tree)
  | object (members : List (List UInt8 × Tree))

/-! ## The grammar -/

/-- Insignificant blanks, of which there may be none. -/
def IsBlank (ws : List UInt8) : Prop :=
  ∀ b ∈ ws, isSpace b = true

def IsHexDigit (b : UInt8) : Prop :=
  Text.IsDigit b ∨ (byte 'a' ≤ b ∧ b ≤ byte 'f') ∨ (byte 'A' ≤ b ∧ b ≤ byte 'F')

/-- The letters that stand for one character after a backslash. -/
def escapeLetters : List UInt8 :=
  [byte '"', byte '\\', byte '/', byte 'b', byte 'f', byte 'n', byte 'r', byte 't']

/-- What stands between the quotes of a string. -/
inductive IsBody : List UInt8 → Prop where
  | nil : IsBody []
  | plain {b : UInt8} {more : List UInt8} (hb : IsPlain b) (hmore : IsBody more) :
      IsBody (b :: more)
  | letter {b : UInt8} {more : List UInt8} (hb : b ∈ escapeLetters) (hmore : IsBody more) :
      IsBody (byte '\\' :: b :: more)
  | unit {a b c d : UInt8} {more : List UInt8} (ha : IsHexDigit a) (hb : IsHexDigit b)
      (hc : IsHexDigit c) (hd : IsHexDigit d) (hmore : IsBody more) :
      IsBody (byte '\\' :: byte 'u' :: a :: b :: c :: d :: more)

/-- A run of digits. -/
def IsDigits (ds : List UInt8) : Prop :=
  ds ≠ [] ∧ ∀ b ∈ ds, Text.IsDigit b

/-- The digits before the point, with no zero in front of others. -/
def IsWhole (ds : List UInt8) : Prop :=
  IsDigits ds ∧ ∀ more, ds = byte '0' :: more → more = []

/-- The point and the digits behind it, which may be missing. -/
inductive IsFraction : List UInt8 → Prop where
  | none : IsFraction []
  | point {ds : List UInt8} (hds : IsDigits ds) : IsFraction (byte '.' :: ds)

/-- The exponent, which may be missing. -/
inductive IsExponent : List UInt8 → Prop where
  | none : IsExponent []
  | mark {b : UInt8} {sign ds : List UInt8} (hb : b = byte 'e' ∨ b = byte 'E')
      (hsign : sign = [] ∨ sign = [byte '+'] ∨ sign = [byte '-']) (hds : IsDigits ds) :
      IsExponent (b :: (sign ++ ds))

/-- A number without a sign. -/
inductive IsUnsigned : List UInt8 → Prop where
  | parts {whole fraction exponent : List UInt8} (hwhole : IsWhole whole)
      (hfraction : IsFraction fraction) (hexponent : IsExponent exponent) :
      IsUnsigned (whole ++ (fraction ++ exponent))

inductive IsNumber : List UInt8 → Prop where
  | unsigned {text : List UInt8} (htext : IsUnsigned text) : IsNumber text
  | negative {text : List UInt8} (htext : IsUnsigned text) : IsNumber (byte '-' :: text)

/-- What a text spells: a value, a member, or what follows the first element or member up to the end
of an array or object. -/
inductive Form where
  | value (tree : Tree)
  | member (name : List UInt8) (tree : Tree)
  | elements (trees : List Tree)
  | members (ms : List (List UInt8 × Tree))

/-- The spellings of a tree differ in the blanks around its values, names and signs. -/
inductive Spelling : Form → List UInt8 → Prop where
  | null : Spelling (.value .null) (Text.bytes "null")
  | true : Spelling (.value (.truth true)) (Text.bytes "true")
  | false : Spelling (.value (.truth false)) (Text.bytes "false")
  | number {text : List UInt8} (htext : IsNumber text) : Spelling (.value (.number text)) text
  | string {body : List UInt8} (hbody : IsBody body) :
      Spelling (.value (.string body)) (byte '"' :: (body ++ [byte '"']))
  | emptyArray {ws : List UInt8} (hws : IsBlank ws) :
      Spelling (.value (.array [])) (byte '[' :: (ws ++ [byte ']']))
  | array {tree : Tree} {trees : List Tree} {ws v more : List UInt8} (hws : IsBlank ws)
      (hv : Spelling (.value tree) v) (hmore : Spelling (.elements trees) more) :
      Spelling (.value (.array (tree :: trees))) (byte '[' :: (ws ++ (v ++ more)))
  | endOfArray {ws : List UInt8} (hws : IsBlank ws) : Spelling (.elements []) (ws ++ [byte ']'])
  | element {tree : Tree} {trees : List Tree} {ws ws' v more : List UInt8} (hws : IsBlank ws)
      (hws' : IsBlank ws') (hv : Spelling (.value tree) v)
      (hmore : Spelling (.elements trees) more) :
      Spelling (.elements (tree :: trees)) (ws ++ byte ',' :: (ws' ++ (v ++ more)))
  | emptyObject {ws : List UInt8} (hws : IsBlank ws) :
      Spelling (.value (.object [])) (byte '\x7b' :: (ws ++ [byte '\x7d']))
  | object {name : List UInt8} {tree : Tree} {ms : List (List UInt8 × Tree)}
      {ws m more : List UInt8} (hws : IsBlank ws) (hm : Spelling (.member name tree) m)
      (hmore : Spelling (.members ms) more) :
      Spelling (.value (.object ((name, tree) :: ms))) (byte '\x7b' :: (ws ++ (m ++ more)))
  | endOfObject {ws : List UInt8} (hws : IsBlank ws) : Spelling (.members []) (ws ++ [byte '\x7d'])
  | nextMember {name : List UInt8} {tree : Tree} {ms : List (List UInt8 × Tree)}
      {ws ws' m more : List UInt8} (hws : IsBlank ws) (hws' : IsBlank ws')
      (hm : Spelling (.member name tree) m) (hmore : Spelling (.members ms) more) :
      Spelling (.members ((name, tree) :: ms)) (ws ++ byte ',' :: (ws' ++ (m ++ more)))
  | member {name : List UInt8} {tree : Tree} {ws ws' v : List UInt8} (hname : IsBody name)
      (hws : IsBlank ws) (hws' : IsBlank ws') (hv : Spelling (.value tree) v) :
      Spelling (.member name tree)
        (byte '"' :: (name ++ byte '"' :: (ws ++ byte ':' :: (ws' ++ v))))

/-- A document spells a tree, with blanks around it. -/
def IsDocument (tree : Tree) (document : List UInt8) : Prop :=
  ∃ before v after, IsBlank before ∧ Spelling (.value tree) v ∧ IsBlank after ∧
    document = before ++ (v ++ after)

instance (b : UInt8) : Decidable (IsPlain b) :=
  inferInstanceAs (Decidable (_ ∧ _ ∧ _))

/-- Bytes that stand for themselves. -/
theorem isBody_of_isPlain {body : List UInt8}
    (hbody : (body.all fun b => decide (IsPlain b)) = true) :
    IsBody body := by
  induction body with
  | nil => exact .nil
  | cons b more ih =>
      rw [List.all_cons, Bool.and_eq_true, decide_eq_true_eq] at hbody
      exact .plain hbody.1 (ih hbody.2)

/-! ## Where a spelling starts and ends -/

/-- The first byte tells what kind of value it is. -/
def Tree.OpensWith (b : UInt8) : Tree → Prop
  | .null => b = byte 'n'
  | .truth true => b = byte 't'
  | .truth false => b = byte 'f'
  | .number _ => b = byte '-' ∨ Text.IsDigit b
  | .string _ => b = byte '"'
  | .array _ => b = byte '['
  | .object _ => b = byte '\x7b'

theorem Tree.OpensWith.isSpace {tree : Tree} {b : UInt8} (hb : tree.OpensWith b) :
    isSpace b = false := by
  cases tree with
  | truth value => cases value <;> cases hb <;> decide
  | number text =>
      rcases hb with rfl | hb
      · decide
      · exact isSpace_of_isDigit hb
  | _ => cases hb; decide

/-- The first byte of a number starts no other value and closes nothing. -/
theorem ne_of_opensNumber {b : UInt8} (hb : b = byte '-' ∨ Text.IsDigit b) {other : UInt8}
    (hother : other ∈ [byte 'n', byte 't', byte 'f', byte '"', byte '[', byte '\x7b', byte ']',
      byte '\x7d']) : b ≠ other := by
  have hnone : ([byte 'n', byte 't', byte 'f', byte '"', byte '[', byte '\x7b', byte ']',
      byte '\x7d'].all fun b => b != byte '-' && !Text.isDigit b) = true := by decide
  rintro rfl
  have hclosing := List.all_eq_true.mp hnone b hother
  rw [Bool.and_eq_true, bne_iff_ne, Bool.not_eq_true'] at hclosing
  rcases hb with hminus | hdigit
  · exact hclosing.1 hminus
  · exact Bool.eq_false_iff.mp hclosing.2 (Text.isDigit_iff.mpr hdigit)

theorem Tree.OpensWith.ne_closing {tree : Tree} {b : UInt8} (hb : tree.OpensWith b) :
    b ≠ byte ']' := by
  cases tree with
  | truth value => cases value <;> cases hb <;> decide
  | number text => exact ne_of_opensNumber hb (by decide)
  | _ => cases hb; decide

theorem IsUnsigned.exists_cons {text : List UInt8} (htext : IsUnsigned text) :
    ∃ b more, text = b :: more ∧ Text.IsDigit b := by
  obtain @⟨whole, fraction, exponent, ⟨⟨hne, hdigits⟩, -⟩, -, -⟩ := htext
  cases whole with
  | nil => exact absurd rfl hne
  | cons b more => exact ⟨b, _, rfl, hdigits b List.mem_cons_self⟩

theorem Spelling.exists_cons {tree : Tree} {v : List UInt8} (hv : Spelling (.value tree) v) :
    ∃ b more, v = b :: more ∧ tree.OpensWith b := by
  cases hv with
  | number htext =>
      cases htext with
      | unsigned htext =>
          obtain ⟨b, more, rfl, hb⟩ := htext.exists_cons
          exact ⟨b, more, rfl, .inr hb⟩
      | negative htext => exact ⟨_, _, rfl, .inl rfl⟩
  | _ => exact ⟨_, _, rfl, rfl⟩

theorem Spelling.exists_quote {name m : List UInt8} {tree : Tree}
    (hm : Spelling (.member name tree) m) : ∃ more, m = byte '"' :: more := by
  cases hm with
  | member _ _ _ _ => exact ⟨_, rfl⟩

theorem endsValue_of_isBlank {ws : List UInt8} (hws : IsBlank ws) : EndsValue ws := by
  rintro b more rfl
  exact .inr (.inr (.inr (hws b List.mem_cons_self)))

/-- Blanks end a value, and so does a sign behind them. -/
theorem endsValue_append {ws : List UInt8} {b : UInt8} (hws : IsBlank ws)
    (hb : b = byte ',' ∨ b = byte ']' ∨ b = byte '\x7d') (rest : List UInt8) :
    EndsValue (ws ++ b :: rest) := by
  cases ws with
  | nil => exact endsValue_cons hb
  | cons space ws =>
      rintro b' more' heq
      obtain ⟨rfl, -⟩ := List.cons.inj heq
      exact .inr (.inr (.inr (hws _ List.mem_cons_self)))

theorem Spelling.endsValue_elements {trees : List Tree} {more : List UInt8}
    (hmore : Spelling (.elements trees) more) (rest : List UInt8) : EndsValue (more ++ rest) := by
  cases hmore with
  | endOfArray hws =>
      rw [List.append_assoc]
      exact endsValue_append hws (.inr (.inl rfl)) _
  | element hws _ _ _ =>
      rw [List.append_assoc]
      exact endsValue_append hws (.inl rfl) _

theorem Spelling.endsValue_members {ms : List (List UInt8 × Tree)} {more : List UInt8}
    (hmore : Spelling (.members ms) more) (rest : List UInt8) : EndsValue (more ++ rest) := by
  cases hmore with
  | endOfObject hws =>
      rw [List.append_assoc]
      exact endsValue_append hws (.inr (.inr rfl)) _
  | nextMember hws _ _ _ =>
      rw [List.append_assoc]
      exact endsValue_append hws (.inl rfl) _

/-! ## Blanks -/

theorem skipSpace_append {ws : List UInt8} (hws : IsBlank ws) {b : UInt8} (hb : isSpace b = false)
    (rest : List UInt8) : skipSpace (ws ++ b :: rest) = b :: rest := by
  have hstop : ∀ b' more, b :: rest = b' :: more → isSpace b' = false := by
    rintro b' more heq
    obtain ⟨rfl, -⟩ := List.cons.inj heq
    exact hb
  exact (Text.span_append hws hstop).2

theorem skipSpace_of_isBlank {ws : List UInt8} (hws : IsBlank ws) : skipSpace ws = [] :=
  List.dropWhile_eq_nil_iff.mpr hws

end Entitlement.Json
