import Entitlement.Ascending
import Entitlement.Json.Scan

/-! # Readers

A reader takes one value from the front of a text. It carries the fact that it leaves a shorter text
than it was given, which is what bounds the reading of arrays and objects. Readers differ in the
value they expect; a value of another kind is reported as such, and a member that nobody asked for
is passed over without being looked into.
-/

namespace Entitlement.Json

/-- Takes one value from the front of a text. -/
structure Reader (α : Type) where
  run : List UInt8 → Except ReadError (α × List UInt8)
  shortens : ∀ {s value rest}, run s = .ok (value, rest) → rest.length < s.length

namespace Reader

variable {α β σ : Type}

/-- Hands on the first byte after insignificant blanks, and what follows it. -/
def runOnFirst (step : UInt8 → List UInt8 → Except ReadError (α × List UInt8)) (s : List UInt8) :
    Except ReadError (α × List UInt8) :=
  match skipSpace s with
  | [] => .error (.malformed .endInValue)
  | b :: rest => step b rest

theorem runOnFirst_length {step : UInt8 → List UInt8 → Except ReadError (α × List UInt8)}
    (h : ∀ {b s value rest}, step b s = .ok (value, rest) → rest.length ≤ s.length)
    {s rest : List UInt8} {value : α} (hrun : runOnFirst step s = .ok (value, rest)) :
    rest.length < s.length := by
  unfold runOnFirst at hrun
  split at hrun
  · simp at hrun
  next b after hskip =>
    have := h hrun
    have := length_of_skipSpace hskip
    omega

/-- A reader that looks at the first byte after insignificant blanks. -/
def onFirst (step : UInt8 → List UInt8 → Except ReadError (α × List UInt8))
    (h : ∀ {b s value rest}, step b s = .ok (value, rest) → rest.length ≤ s.length) :
    Reader α where
  run := runOnFirst step
  shortens := runOnFirst_length h

/-- Reads a value and then has it checked. -/
def check (reader : Reader α) (f : α → Except ReadError β) : Reader β where
  run s :=
    match reader.run s with
    | .error e => .error e
    | .ok (value, rest) => (f value).map (·, rest)
  shortens := by
    intro s value rest hrun
    split at hrun
    · simp at hrun
    next value' rest' h =>
      rw [length_of_map_ok hrun]
      exact reader.shortens h

/-- Reads a value and changes it. -/
def map (f : α → β) (reader : Reader α) : Reader β :=
  reader.check fun value => .ok (f value)

/-- Reads a whole text as one value. -/
def read (reader : Reader α) (s : List UInt8) : Except ReadError α :=
  match reader.run s with
  | .error e => .error e
  | .ok (value, rest) =>
    if skipSpace rest = [] then .ok value else .error (.malformed .trailingCharacters)

/-- The kind of value that starts with a given byte, reported because another kind is expected. A
value without parts is read to its end first, and may turn out not to be JSON. -/
def mistyped (expected : String) (b : UInt8) (s : List UInt8) : ReadError :=
  let report {γ : Type} (found : γ → Found) : Except ReadError γ → ReadError
    | .error e => e
    | .ok value => .mistyped (found value) expected
  if b = byte 'n' then report (fun _ => .null) (readWord [byte 'u', byte 'l', byte 'l'] s)
  else if b = byte 't' then
    report (fun _ => .boolean true) (readWord [byte 'r', byte 'u', byte 'e'] s)
  else if b = byte 'f' then
    report (fun _ => .boolean false) (readWord [byte 'a', byte 'l', byte 's', byte 'e'] s)
  else if b = byte '-' then report (fun r => r.1.found) (readNumber true s)
  else if Text.isDigit b then report (fun r => r.1.found) (readNumber false (b :: s))
  else if b = byte '"' then report (fun r => .string r.1) (readString s)
  else if b = byte '[' then .mistyped .array expected
  else if b = byte '\x7b' then .mistyped .object expected
  else .malformed .expectedValue

/-! ## Values without parts -/

/-- A string, described by what it is expected to be. -/
def text (expected : String) : Reader String :=
  onFirst
    (fun b s =>
      if b = byte '"' then readString s else .error (mistyped expected b s))
    (by
      intro b s value rest h
      split at h
      · exact Nat.le_of_lt (readString_length h)
      · simp at h)

/-- Any string. -/
def string : Reader String :=
  text "a string"

/-- Null. -/
def null : Reader Unit :=
  onFirst
    (fun b s =>
      if b = byte 'n' then (readWord [byte 'u', byte 'l', byte 'l'] s).map ((), ·)
      else .error (mistyped "unit" b s))
    (by
      intro b s value rest h
      split at h
      · cases hword : readWord [byte 'u', byte 'l', byte 'l'] s with
        | error e => simp [hword, Except.map] at h
        | ok after =>
          simp only [hword, Except.map, Except.ok.injEq, Prod.mk.injEq] at h
          exact h.2 ▸ readWord_length hword
      · simp at h)

/-- A natural number below a bound, described by what it is expected to be. -/
def natural (bound : Nat) (expected : String) : Reader Nat :=
  (onFirst
    (fun b s =>
      if b = byte '-' then readNumber true s
      else if Text.isDigit b then readNumber false (b :: s)
      else .error (mistyped expected b s))
    (by
      intro b s value rest h
      split at h
      · exact Nat.le_of_lt (readNumber_length h)
      · split at h
        · exact Nat.le_of_lt_succ (readNumber_length h)
        · simp at h)).check
    fun number =>
      match number with
      | .natural n =>
        if n < bound then .ok n else .error (.outOfRange n expected)
      | .negative n => .error (.outOfRange (-n) expected)
      | .fraction isNegative magnitude =>
        .error (.mistyped (.fraction isNegative magnitude) expected)

/-- A natural number of 64 bits. -/
def word64 : Reader UInt64 :=
  (natural UInt64.size "u64").map UInt64.ofNat

/-- A natural number of 32 bits. -/
def word32 : Reader UInt32 :=
  (natural UInt32.size "u32").map UInt32.ofNat

end Reader

end Entitlement.Json
