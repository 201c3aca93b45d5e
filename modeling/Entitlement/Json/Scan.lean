import Entitlement.Json.Fault

/-! # Scanning JSON text

The scanners take bytes from the front of a text and return what is left of it. Each one returns a
shorter text than it was given, or at least none that is longer; the lemmas beside the definitions
say so, and every reader that repeats a scanner ends because of them.
-/

namespace Entitlement.Json

/-- The byte of an ASCII character. -/
abbrev byte (c : Char) : UInt8 := c.toUInt8

def isSpace (b : UInt8) : Bool :=
  b == byte ' ' || b == byte '\n' || b == byte '\t' || b == byte '\r'

/-- What is left after insignificant blanks. -/
def skipSpace (s : List UInt8) : List UInt8 :=
  s.dropWhile isSpace

theorem skipSpace_length (s : List UInt8) : (skipSpace s).length ≤ s.length :=
  (List.dropWhile_suffix isSpace).length_le

theorem length_of_skipSpace {s rest : List UInt8} {b : UInt8} (h : skipSpace s = b :: rest) :
    rest.length < s.length := by
  have := skipSpace_length s
  rw [h, List.length_cons] at this
  omega

/-- What is left after the remaining letters of a word. -/
def readWord (letters : List UInt8) (s : List UInt8) : Except ReadError (List UInt8) :=
  match letters, s with
  | [], s => .ok s
  | _ :: _, [] => .error (.malformed .endInValue)
  | letter :: letters, b :: rest =>
    if b = letter then readWord letters rest else .error (.malformed .expectedWord)

theorem readWord_length {letters s rest : List UInt8} (h : readWord letters s = .ok rest) :
    rest.length ≤ s.length := by
  induction letters generalizing s with
  | nil =>
    simp only [readWord, Except.ok.injEq] at h
    exact h ▸ Nat.le_refl _
  | cons letter letters ih =>
    cases s with
    | nil => simp [readWord] at h
    | cons b s =>
      unfold readWord at h
      split at h
      · have := ih h
        rw [List.length_cons]
        omega
      · simp at h

/-! ## Strings -/

/-- The value of a hexadecimal digit. -/
def hexValue? (b : UInt8) : Option Nat :=
  if Text.isDigit b then some (b.toNat - 48)
  else if byte 'a' ≤ b ∧ b ≤ byte 'f' then some (b.toNat - 87)
  else if byte 'A' ≤ b ∧ b ≤ byte 'F' then some (b.toNat - 55)
  else none

/-- The UTF-16 code unit of an escape, after the letter that introduces it. -/
def readUnit (s : List UInt8) : Except ReadError (Nat × List UInt8) :=
  match s with
  | a :: b :: c :: d :: rest =>
    match hexValue? a, hexValue? b, hexValue? c, hexValue? d with
    | some a, some b, some c, some d => .ok (((a * 16 + b) * 16 + c) * 16 + d, rest)
    | _, _, _, _ => .error (.malformed .malformedEscape)
  | _ => .error (.malformed .endInString)

theorem readUnit_length {s rest : List UInt8} {unit : Nat} (h : readUnit s = .ok (unit, rest)) :
    rest.length < s.length := by
  unfold readUnit at h
  split at h
  · split at h
    · simp only [Except.ok.injEq, Prod.mk.injEq] at h
      obtain ⟨-, rfl⟩ := h
      simp only [List.length_cons]
      omega
    · simp at h
  · simp at h

/-- Takes one byte of a pair of escapes that stand for one character. -/
def readPairByte (expected : UInt8) (s : List UInt8) : Except ReadError (List UInt8) :=
  match s with
  | [] => .error (.malformed .endInString)
  | b :: rest => if b = expected then .ok rest else .error (.malformed .unpairedSurrogate)

theorem readPairByte_length {expected : UInt8} {s rest : List UInt8}
    (h : readPairByte expected s = .ok rest) : rest.length < s.length := by
  unfold readPairByte at h
  split at h
  · simp at h
  · split at h
    · simp only [Except.ok.injEq] at h
      simp [h]
    · simp at h

/-- The second escape of a pair, with the character of the pair. -/
def readLowUnit (high : Nat) (s : List UInt8) : Except ReadError (Char × List UInt8) := do
  let rest ← readPairByte (byte '\\') s
  let rest ← readPairByte (byte 'u') rest
  let (low, rest) ← readUnit rest
  if low < 0xDC00 ∨ 0xDFFF < low then .error (.malformed .loneSurrogate)
  else .ok (Char.ofNat (0x10000 + (high - 0xD800) * 0x400 + (low - 0xDC00)), rest)

theorem readLowUnit_length {high : Nat} {s rest : List UInt8} {c : Char}
    (h : readLowUnit high s = .ok (c, rest)) : rest.length < s.length := by
  unfold readLowUnit at h
  cases h1 : readPairByte (byte '\\') s with
  | error e => simp [h1, bind, Except.bind] at h
  | ok s1 =>
    cases h2 : readPairByte (byte 'u') s1 with
    | error e => simp [h1, h2, bind, Except.bind] at h
    | ok s2 =>
      cases h3 : readUnit s2 with
      | error e => simp [h1, h2, h3, bind, Except.bind] at h
      | ok r =>
        obtain ⟨low, s3⟩ := r
        simp only [h1, h2, h3, bind, Except.bind] at h
        split at h
        · simp at h
        · simp only [Except.ok.injEq, Prod.mk.injEq] at h
          obtain ⟨-, rfl⟩ := h
          have := readPairByte_length h1
          have := readPairByte_length h2
          have := readUnit_length h3
          omega

/-- The character of one or two escaped code units. -/
def readUnicode (s : List UInt8) : Except ReadError (Char × List UInt8) :=
  match readUnit s with
  | .error e => .error e
  | .ok (unit, rest) =>
    if 0xDC00 ≤ unit ∧ unit ≤ 0xDFFF then .error (.malformed .loneSurrogate)
    else if 0xD800 ≤ unit ∧ unit ≤ 0xDBFF then readLowUnit unit rest
    else .ok (Char.ofNat unit, rest)

theorem readUnicode_length {s rest : List UInt8} {c : Char}
    (h : readUnicode s = .ok (c, rest)) : rest.length < s.length := by
  unfold readUnicode at h
  split at h
  · simp at h
  next unit s1 h1 =>
    have := readUnit_length h1
    split at h
    · simp at h
    · split at h
      · have := readLowUnit_length h
        omega
      · simp only [Except.ok.injEq, Prod.mk.injEq] at h
        obtain ⟨-, rfl⟩ := h
        exact this

/-- The character that a one-letter escape stands for. -/
def shortEscape? (b : UInt8) : Option Char :=
  if b = byte '"' then some '"'
  else if b = byte '\\' then some '\\'
  else if b = byte '/' then some '/'
  else if b = byte 'b' then some '\x08'
  else if b = byte 'f' then some '\x0c'
  else if b = byte 'n' then some '\n'
  else if b = byte 'r' then some '\r'
  else if b = byte 't' then some '\t'
  else none

/-- The character of an escape, after the backslash. -/
def readEscape (s : List UInt8) : Except ReadError (Char × List UInt8) :=
  match s with
  | [] => .error (.malformed .endInString)
  | b :: rest =>
    match shortEscape? b with
    | some c => .ok (c, rest)
    | none =>
      if b = byte 'u' then readUnicode rest else .error (.malformed .malformedEscape)

theorem readEscape_length {s rest : List UInt8} {c : Char}
    (h : readEscape s = .ok (c, rest)) : rest.length < s.length := by
  unfold readEscape at h
  split at h
  · simp at h
  · split at h
    · simp only [Except.ok.injEq, Prod.mk.injEq] at h
      simp [h.2]
    · split at h
      · have := readUnicode_length h
        rw [List.length_cons]
        omega
      · simp at h

/-- The bytes of a string up to its closing quote, in which escapes are resolved. The bytes read so
far are kept in reverse order. -/
def readChars (seen : List UInt8) (s : List UInt8) : Except ReadError (List UInt8 × List UInt8) :=
  match s with
  | [] => .error (.malformed .endInString)
  | b :: rest =>
    if b = byte '"' then .ok (seen.reverse, rest)
    else if b = byte '\\' then
      match _hescape : readEscape rest with
      | .error e => .error e
      | .ok (c, after) => readChars ((String.utf8EncodeChar c).reverse ++ seen) after
    else if b < 0x20 then .error (.malformed .controlCharacter)
    else readChars (b :: seen) rest
termination_by s.length
decreasing_by
  · have := readEscape_length _hescape
    simp only [List.length_cons]
    omega
  · simp

theorem readChars_length {seen s bytes rest : List UInt8}
    (h : readChars seen s = .ok (bytes, rest)) : rest.length < s.length := by
  fun_induction readChars seen s with
  | case1 => simp at h
  | case2 =>
    simp only [Except.ok.injEq, Prod.mk.injEq] at h
    simp [h.2]
  | case3 => simp at h
  | case4 seen rest' c after hesc hb ih =>
    have := ih h
    have := readEscape_length hesc
    rw [List.length_cons]
    omega
  | case5 => simp at h
  | case6 seen b rest' hq hb hc ih =>
    have := ih h
    rw [List.length_cons]
    omega

/-- The text of a string, after its opening quote. -/
def readString (s : List UInt8) : Except ReadError (String × List UInt8) :=
  match readChars [] s with
  | .error e => .error e
  | .ok (bytes, rest) =>
    match Text.ofBytes? bytes with
    | none => .error (.malformed .malformedUtf8)
    | some text => .ok (text, rest)

theorem readString_length {s rest : List UInt8} {text : String}
    (h : readString s = .ok (text, rest)) : rest.length < s.length := by
  unfold readString at h
  split at h
  · simp at h
  next bytes rest' h1 =>
    split at h
    · simp at h
    · simp only [Except.ok.injEq, Prod.mk.injEq] at h
      obtain ⟨-, rfl⟩ := h
      exact readChars_length h1

/-- What is left after an escape that is passed over: its code unit may be any. -/
def skipEscape (s : List UInt8) : Except ReadError (List UInt8) :=
  match s with
  | [] => .error (.malformed .endInString)
  | b :: rest =>
    if (shortEscape? b).isSome then .ok rest
    else if b = byte 'u' then
      match readUnit rest with
      | .error e => .error e
      | .ok (_, after) => .ok after
    else .error (.malformed .malformedEscape)

theorem skipEscape_length {s rest : List UInt8} (h : skipEscape s = .ok rest) :
    rest.length < s.length := by
  unfold skipEscape at h
  split at h
  · simp at h
  · split at h
    · simp only [Except.ok.injEq] at h
      simp [h]
    · split at h
      · split at h
        · simp at h
        next unit after h1 =>
          have := readUnit_length h1
          simp only [Except.ok.injEq] at h
          rw [List.length_cons, ← h]
          omega
      · simp at h

/-- What is left after a string that is passed over, after its opening quote. Its bytes need not be
UTF-8. -/
def skipString (s : List UInt8) : Except ReadError (List UInt8) :=
  match s with
  | [] => .error (.malformed .endInString)
  | b :: rest =>
    if b = byte '"' then .ok rest
    else if b = byte '\\' then
      match _hescape : skipEscape rest with
      | .error e => .error e
      | .ok after => skipString after
    else if b < 0x20 then .error (.malformed .controlCharacter)
    else skipString rest
termination_by s.length
decreasing_by
  · have := skipEscape_length _hescape
    simp only [List.length_cons]
    omega
  · simp

theorem skipString_length {s rest : List UInt8} (h : skipString s = .ok rest) :
    rest.length < s.length := by
  fun_induction skipString s with
  | case1 => simp at h
  | case2 =>
    simp only [Except.ok.injEq] at h
    simp [h]
  | case3 => simp at h
  | case4 rest' after hesc hb ih =>
    have := ih h
    have := skipEscape_length hesc
    rw [List.length_cons]
    omega
  | case5 => simp at h
  | case6 b rest' hq hb hc ih =>
    have := ih h
    rw [List.length_cons]
    omega

/-! ## Numbers -/

/-- A number as far as readers tell numbers apart: the natural numbers and negative integers of 64
bits, and all others with their double-precision magnitude. -/
inductive Number where
  | natural (value : Nat)
  | negative (magnitude : Nat)
  | fraction (isNegative : Bool) (magnitude : Decimal.Magnitude)
  deriving DecidableEq

def Number.found : Number → Found
  | .natural value => .integer value
  | .negative magnitude => .integer (-magnitude)
  | .fraction isNegative magnitude => .fraction isNegative magnitude

/-- The bound on the digits that a number keeps. -/
def wordBound : Nat := UInt64.size

/-- The digits of a number as far as they are kept: a significand, the power of ten by which it is
to be multiplied, and whether a digit has been left out. -/
structure Digits where
  significand : Nat
  exponent : Int
  isFull : Bool

/-- Adds a digit before the point; one that no longer fits only raises the exponent, and so do all
that follow it. -/
def Digits.addWhole (digits : Digits) (b : UInt8) : Digits :=
  let next := digits.significand * 10 + (b.toNat - 48)
  if digits.isFull ∨ wordBound ≤ next then
    { digits with exponent := digits.exponent + 1, isFull := true }
  else { digits with significand := next }

/-- Adds a digit after the point; one that no longer fits is left out, and so are all that follow
it. -/
def Digits.addFraction (digits : Digits) (b : UInt8) : Digits :=
  let next := digits.significand * 10 + (b.toNat - 48)
  if digits.isFull ∨ wordBound ≤ next then { digits with isFull := true }
  else { digits with significand := next, exponent := digits.exponent - 1 }

/-- The number that digits and an exponent denote. -/
def Digits.toFraction (digits : Digits) (isNegative : Bool) (exponent : Int) :
    Except ReadError Number :=
  match Decimal.Magnitude.ofDecimal? digits.significand (digits.exponent + exponent) with
  | none => .error (.malformed .numberTooLarge)
  | some magnitude => .ok (.fraction isNegative magnitude)

/-- The number that digits without point or exponent denote. -/
def Digits.toNumber (digits : Digits) (isNegative : Bool) : Except ReadError Number :=
  if digits.isFull then digits.toFraction isNegative 0
  else if ¬ isNegative then .ok (.natural digits.significand)
  else if digits.significand = 0 ∨ wordBound / 2 < digits.significand then
    digits.toFraction true 0
  else .ok (.negative digits.significand)

/-- The largest exponent that is computed with. -/
def maxExponent : Nat := UInt32.size / 2 - 1

/-- What is left after the sign of an exponent, if there is one. -/
def skipSign (s : List UInt8) : List UInt8 :=
  match s with
  | [] => []
  | b :: rest => if b = byte '-' ∨ b = byte '+' then rest else b :: rest

theorem skipSign_length (s : List UInt8) : (skipSign s).length ≤ s.length := by
  unfold skipSign
  split
  · simp
  · split <;> simp

/-- The number with digits whose exponent has been read. -/
def Digits.scaled (digits : Digits) (isNegative isDown : Bool) (exponent : Nat) :
    Except ReadError Number :=
  if maxExponent < exponent then
    if digits.significand ≠ 0 ∧ ¬ isDown then .error (.malformed .numberTooLarge)
    else .ok (.fraction isNegative .zero)
  else digits.toFraction isNegative (if isDown then -exponent else exponent)

/-- A number with an exponent, after the letter that introduces the exponent. -/
def readExponent (isNegative : Bool) (digits : Digits) (s : List UInt8) :
    Except ReadError (Number × List UInt8) :=
  let isDown := s.head? = some (byte '-')
  let run := (skipSign s).takeWhile Text.isDigit
  if run = [] then
    .error (.malformed (if skipSign s = [] then .endInValue else .malformedNumber))
  else
    let exponent := run.foldl (fun n b => 10 * n + (b.toNat - 48)) 0
    (digits.scaled isNegative isDown exponent).map (·, (skipSign s).dropWhile Text.isDigit)

/-- What follows the digits before the point. -/
def readAfterWhole (isNegative : Bool) (digits : Digits) (s : List UInt8) :
    Except ReadError (Number × List UInt8) :=
  match s with
  | [] => (digits.toNumber isNegative).map (·, [])
  | b :: rest =>
    if b = byte '.' then
      let run := rest.takeWhile Text.isDigit
      let after := rest.dropWhile Text.isDigit
      let digits := run.foldl Digits.addFraction { digits with isFull := false }
      if run = [] then
        .error (.malformed (if rest = [] then .endInValue else .malformedNumber))
      else if after.head? = some (byte 'e') ∨ after.head? = some (byte 'E') then
        readExponent isNegative digits after.tail
      else (digits.toFraction isNegative 0).map (·, after)
    else if b = byte 'e' ∨ b = byte 'E' then readExponent isNegative digits rest
    else (digits.toNumber isNegative).map (·, b :: rest)

/-- A number, after its sign. -/
def readNumber (isNegative : Bool) (s : List UInt8) : Except ReadError (Number × List UInt8) :=
  let run := s.takeWhile Text.isDigit
  let rest := s.dropWhile Text.isDigit
  match run with
  | [] => .error (.malformed (if s = [] then .endInValue else .malformedNumber))
  | first :: more =>
    if first = byte '0' ∧ more ≠ [] then .error (.malformed .malformedNumber)
    else readAfterWhole isNegative ((first :: more).foldl Digits.addWhole ⟨0, 0, false⟩) rest

/-- What is left after an exponent that is passed over. -/
def skipExponent (s : List UInt8) : Except ReadError (List UInt8) :=
  if (skipSign s).takeWhile Text.isDigit = [] then .error (.malformed .malformedNumber)
  else .ok ((skipSign s).dropWhile Text.isDigit)

/-- What is left after a number that is passed over, after its sign: its size does not matter. -/
def skipNumber (s : List UInt8) : Except ReadError (List UInt8) :=
  let rest := s.dropWhile Text.isDigit
  match s.takeWhile Text.isDigit with
  | [] => .error (.malformed .malformedNumber)
  | first :: more =>
    if first = byte '0' ∧ more ≠ [] then .error (.malformed .malformedNumber)
    else
      match rest with
      | [] => .ok []
      | b :: after =>
        if b = byte '.' then
          let rest := after.dropWhile Text.isDigit
          if after.takeWhile Text.isDigit = [] then .error (.malformed .malformedNumber)
          else if rest.head? = some (byte 'e') ∨ rest.head? = some (byte 'E') then
            skipExponent rest.tail
          else .ok rest
        else if b = byte 'e' ∨ b = byte 'E' then skipExponent after
        else .ok (b :: after)

theorem dropWhile_length (p : UInt8 → Bool) (s : List UInt8) :
    (s.dropWhile p).length ≤ s.length :=
  (List.dropWhile_suffix p).length_le

theorem tail_length_le (s : List UInt8) : s.tail.length ≤ s.length := by
  cases s <;> simp

theorem length_of_map_ok {α : Type} {result : Except ReadError α} {value : α}
    {s rest : List UInt8} (h : result.map (·, s) = .ok (value, rest)) : rest = s := by
  cases result with
  | error e => simp [Except.map] at h
  | ok a =>
    simp only [Except.map, Except.ok.injEq, Prod.mk.injEq] at h
    exact h.2.symm

theorem readExponent_length {isNegative : Bool} {digits : Digits} {s rest : List UInt8}
    {number : Number} (h : readExponent isNegative digits s = .ok (number, rest)) :
    rest.length ≤ s.length := by
  unfold readExponent at h
  simp only at h
  split at h
  · simp at h
  · rw [length_of_map_ok h]
    exact Nat.le_trans (dropWhile_length _ _) (skipSign_length s)

theorem readAfterWhole_length {isNegative : Bool} {digits : Digits} {s rest : List UInt8}
    {number : Number} (h : readAfterWhole isNegative digits s = .ok (number, rest)) :
    rest.length ≤ s.length := by
  unfold readAfterWhole at h
  split at h
  · exact Nat.le_of_eq (congrArg List.length (length_of_map_ok h))
  next b after =>
    rw [List.length_cons]
    split at h
    · simp only at h
      have hdrop := dropWhile_length Text.isDigit after
      split at h
      · simp at h
      · split at h
        · have := readExponent_length h
          have := tail_length_le (after.dropWhile Text.isDigit)
          omega
        · rw [length_of_map_ok h]
          omega
    · split at h
      · have := readExponent_length h
        omega
      · rw [length_of_map_ok h]
        simp

theorem dropWhile_length_of_takeWhile {p : UInt8 → Bool} {s more : List UInt8} {first : UInt8}
    (h : s.takeWhile p = first :: more) : (s.dropWhile p).length < s.length := by
  have := congrArg List.length (List.takeWhile_append_dropWhile (p := p) (l := s))
  rw [h, List.length_append, List.length_cons] at this
  omega

theorem readNumber_length {isNegative : Bool} {s rest : List UInt8} {number : Number}
    (h : readNumber isNegative s = .ok (number, rest)) : rest.length < s.length := by
  unfold readNumber at h
  simp only at h
  split at h
  · simp at h
  next first more hrun =>
    split at h
    · simp at h
    · have := readAfterWhole_length h
      have := dropWhile_length_of_takeWhile hrun
      omega

theorem skipExponent_length {s rest : List UInt8} (h : skipExponent s = .ok rest) :
    rest.length ≤ s.length := by
  unfold skipExponent at h
  split at h
  · simp at h
  · simp only [Except.ok.injEq] at h
    rw [← h]
    exact Nat.le_trans (dropWhile_length _ _) (skipSign_length s)

theorem skipNumber_length {s rest : List UInt8} (h : skipNumber s = .ok rest) :
    rest.length < s.length := by
  unfold skipNumber at h
  simp only at h
  split at h
  · simp at h
  next first more hrun =>
    have hlt := dropWhile_length_of_takeWhile hrun
    split at h
    · simp at h
    · split at h
      · simp only [Except.ok.injEq] at h
        rw [← h]
        exact Nat.lt_of_le_of_lt (Nat.zero_le _) hlt
      next b after hdrop =>
        rw [hdrop, List.length_cons] at hlt
        have := dropWhile_length Text.isDigit after
        split at h
        · split at h
          · simp at h
          · split at h
            · have := skipExponent_length h
              have := tail_length_le (after.dropWhile Text.isDigit)
              omega
            · simp only [Except.ok.injEq] at h
              rw [← h]
              omega
        · split at h
          · have := skipExponent_length h
            omega
          · simp only [Except.ok.injEq] at h
            rw [← h, List.length_cons]
            exact hlt

end Entitlement.Json
