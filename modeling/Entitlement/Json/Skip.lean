import Entitlement.Json.Reader

/-! # Passing over values

A value that nobody asked for is passed over: it has to be JSON, but its strings need not be UTF-8
and its numbers may have any size. The arrays and objects that are open around the current place are
kept as a stack, so nesting of any depth is passed over in the same way.
-/

namespace Entitlement.Json

/-- An array or object whose end has not been reached. -/
inductive Frame where
  | array | object
  deriving DecidableEq

def Frame.closing : Frame → UInt8
  | .array => byte ']'
  | .object => byte '\x7d'

def Frame.unfinished : Frame → Fault
  | .array => .endInArray
  | .object => .endInObject

def Frame.expectedEnd : Frame → Fault
  | .array => .expectedArrayEnd
  | .object => .expectedObjectEnd

/-- What is left after the colon between a name and its value. -/
def readColon (s : List UInt8) : Except ReadError (List UInt8) :=
  match skipSpace s with
  | [] => .error (.malformed .endInObject)
  | b :: rest => if b = byte ':' then .ok rest else .error (.malformed .expectedColon)

theorem readColon_length {s rest : List UInt8} (h : readColon s = .ok rest) :
    rest.length < s.length := by
  unfold readColon at h
  split at h
  · simp at h
  next b after hskip =>
    split at h
    · simp only [Except.ok.injEq] at h
      exact h ▸ length_of_skipSpace hskip
    · simp at h

/-- What is left after the name of a member that is passed over, and the colon behind it. -/
def skipName (s : List UInt8) : Except ReadError (List UInt8) :=
  match skipSpace s with
  | [] => .error (.malformed .endInObject)
  | b :: rest =>
    if b = byte '"' then
      match skipString rest with
      | .error e => .error e
      | .ok after => readColon after
    else .error (.malformed .nameNotString)

theorem skipName_length {s rest : List UInt8} (h : skipName s = .ok rest) :
    rest.length < s.length := by
  unfold skipName at h
  split at h
  · simp at h
  next b after hskip =>
    have := length_of_skipSpace hskip
    split at h
    · split at h
      · simp at h
      next after' hstring =>
        have := skipString_length hstring
        have := readColon_length h
        omega
    · simp at h

/-- What is left after a value without parts that starts with a given byte. -/
def skipScalar (b : UInt8) (s : List UInt8) : Except ReadError (List UInt8) :=
  if b = byte 'n' then readWord [byte 'u', byte 'l', byte 'l'] s
  else if b = byte 't' then readWord [byte 'r', byte 'u', byte 'e'] s
  else if b = byte 'f' then readWord [byte 'a', byte 'l', byte 's', byte 'e'] s
  else if b = byte '-' then skipNumber s
  else if Text.isDigit b then skipNumber (b :: s)
  else if b = byte '"' then skipString s
  else .error (.malformed .expectedValue)

theorem skipScalar_length {b : UInt8} {s rest : List UInt8} (h : skipScalar b s = .ok rest) :
    rest.length ≤ s.length := by
  unfold skipScalar at h
  split at h
  · exact readWord_length h
  · split at h
    · exact readWord_length h
    · split at h
      · exact readWord_length h
      · split at h
        · exact Nat.le_of_lt (skipNumber_length h)
        · split at h
          · exact Nat.le_of_lt_succ (skipNumber_length h)
          · split at h
            · exact Nat.le_of_lt (skipString_length h)
            · simp at h

/-- A place inside the value that is passed over. -/
inductive Place where
  /-- Before a value. -/
  | value
  /-- Before the first element or member of the innermost frame. -/
  | first
  /-- Before an element or member of the innermost frame, which has to be there. -/
  | next
  /-- After a value. -/
  | after

/-- The order in which places without progress in the text follow each other. -/
def Place.rank : Place → Nat
  | .after => 0
  | .value => 1
  | .next => 2
  | .first => 3

/-- Passes over the rest of a value inside the given frames, from a given place on. -/
def skipFrom (place : Place) (frames : List Frame) (s : List UInt8) :
    Except ReadError (List UInt8) :=
  match place, frames with
  | .value, frames =>
    match _hskip : skipSpace s with
    | [] => .error (.malformed .endInValue)
    | b :: rest =>
      if b = byte '[' then skipFrom .first (.array :: frames) rest
      else if b = byte '\x7b' then skipFrom .first (.object :: frames) rest
      else
        match _hscalar : skipScalar b rest with
        | .error e => .error e
        | .ok after => skipFrom .after frames after
  | .first, [] => .ok s
  | .first, frame :: outer =>
    match _hskip : skipSpace s with
    | [] => .error (.malformed frame.unfinished)
    | b :: rest =>
      if b = frame.closing then skipFrom .after outer rest
      else skipFrom .next (frame :: outer) s
  | .next, [] => .ok s
  | .next, .array :: outer => skipFrom .value (.array :: outer) s
  | .next, .object :: outer =>
    match _hname : skipName s with
    | .error e => .error e
    | .ok after => skipFrom .value (.object :: outer) after
  | .after, [] => .ok s
  | .after, frame :: outer =>
    match _hskip : skipSpace s with
    | [] => .error (.malformed frame.unfinished)
    | b :: rest =>
      if b = byte ',' then skipFrom .next (frame :: outer) rest
      else if b = frame.closing then skipFrom .after outer rest
      else .error (.malformed frame.expectedEnd)
termination_by (s.length, place.rank)
decreasing_by
  all_goals
    first
    | exact Prod.Lex.right _ (by decide)
    | apply Prod.Lex.left
      first
      | exact length_of_skipSpace _hskip
      | exact skipName_length _hname
      | exact Nat.lt_of_le_of_lt (skipScalar_length _hscalar) (length_of_skipSpace _hskip)

theorem skipFrom_length {place : Place} {frames : List Frame} {s rest : List UInt8}
    (h : skipFrom place frames s = .ok rest) : rest.length ≤ s.length := by
  fun_induction skipFrom place frames s with
  | case1 | case4 | case7 | case12 | case15 | case18 => simp at h
  | case6 | case10 | case14 =>
    simp only [Except.ok.injEq] at h
    exact h ▸ Nat.le_refl _
  | case2 _ _ _ hskip ih | case3 _ _ _ hskip _ ih | case8 _ _ _ _ hskip ih
  | case16 _ _ _ _ hskip ih | case17 _ _ _ _ hskip _ ih =>
    exact Nat.le_of_lt (Nat.lt_of_le_of_lt (ih h) (length_of_skipSpace hskip))
  | case5 _ _ _ _ hskip _ _ _ hscalar ih =>
    exact Nat.le_trans (ih h)
      (Nat.le_of_lt (Nat.lt_of_le_of_lt (skipScalar_length hscalar) (length_of_skipSpace hskip)))
  | case9 _ _ _ _ _ _ _ ih | case11 _ _ ih => exact ih h
  | case13 _ _ _ hname ih => exact Nat.le_trans (ih h) (Nat.le_of_lt (skipName_length hname))

theorem skipFrom_value_length {frames : List Frame} {s rest : List UInt8}
    (h : skipFrom .value frames s = .ok rest) : rest.length < s.length := by
  rw [skipFrom] at h
  split at h
  · simp at h
  next b after hskip =>
    have := length_of_skipSpace hskip
    split at h
    · exact Nat.lt_of_le_of_lt (skipFrom_length h) this
    · split at h
      · exact Nat.lt_of_le_of_lt (skipFrom_length h) this
      · split at h
        · simp at h
        next hscalar =>
          have := skipScalar_length hscalar
          have := skipFrom_length h
          omega

/-- Passes over one value. -/
def Reader.skip : Reader Unit where
  run s :=
    match skipFrom .value [] s with
    | .error e => .error e
    | .ok rest => .ok ((), rest)
  shortens := by
    intro s value rest h
    split at h
    · simp at h
    next hskip =>
      simp only [Except.ok.injEq, Prod.mk.injEq] at h
      exact h.2 ▸ skipFrom_value_length hskip

end Entitlement.Json
