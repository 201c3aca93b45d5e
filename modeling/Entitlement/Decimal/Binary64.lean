/-! # Double-precision magnitudes

A magnitude is a natural number times a power of two, within the range and precision of IEEE 754
double precision. Rounding goes to the nearest magnitude and a tie to the even one, in exact
arithmetic; a quotient too large for the format has no magnitude.
-/

namespace Entitlement.Decimal

/-- The magnitude `mantissa * 2 ^ exponent` of a finite double-precision number. -/
structure Magnitude where
  mantissa : Nat
  exponent : Int
  deriving DecidableEq

namespace Magnitude

def zero : Magnitude := ⟨0, -1074⟩

/-- The magnitude as a quotient of natural numbers. -/
def quotient (m : Magnitude) : Nat × Nat :=
  (m.mantissa * Nat.pow 2 m.exponent.toNat, Nat.pow 2 (-m.exponent).toNat)

/-- A quotient rounded to the nearest natural number, a tie to the even one. -/
def roundDiv (num den : Nat) : Nat :=
  let down := num / den
  let twice := 2 * (num % den)
  if twice < den then down
  else if den < twice then down + 1
  else down + down % 2

/-- The exponent of the highest power of two that is at most the quotient. -/
def log2Quotient (num den : Nat) : Int :=
  let guess : Int := (Nat.log2 num : Int) - Nat.log2 den
  if den * Nat.pow 2 guess.toNat ≤ num * Nat.pow 2 (-guess).toNat then guess else guess - 1

/-- The magnitude nearest to a quotient. -/
def ofQuotient? (num den : Nat) : Option Magnitude :=
  if num = 0 then some zero
  else
    let exponent := max (log2Quotient num den - 52) (-1074)
    let mantissa := roundDiv (num * Nat.pow 2 (-exponent).toNat) (den * Nat.pow 2 exponent.toNat)
    let rounded : Magnitude :=
      if mantissa = Nat.pow 2 53 then ⟨Nat.pow 2 52, exponent + 1⟩ else ⟨mantissa, exponent⟩
    if 971 < rounded.exponent then none else some rounded

/-- The product of two magnitudes. -/
def mul? (a b : Magnitude) : Option Magnitude :=
  ofQuotient? (a.quotient.1 * b.quotient.1) (a.quotient.2 * b.quotient.2)

/-- The quotient of two magnitudes. -/
def div? (a b : Magnitude) : Option Magnitude :=
  ofQuotient? (a.quotient.1 * b.quotient.2) (a.quotient.2 * b.quotient.1)

/-- The magnitude nearest to a power of ten. -/
def tenPow? (k : Nat) : Option Magnitude :=
  ofQuotient? (Nat.pow 10 k) 1

/-- Divides by a power of ten, by at most `10 ^ 308` at a time. -/
def divTenPow? (m : Magnitude) (k : Nat) : Option Magnitude :=
  if k ≤ 308 then do m.div? (← tenPow? k)
  else if m.mantissa = 0 then some m
  else do divTenPow? (← m.div? (← tenPow? 308)) (k - 308)
termination_by k

/-- The magnitude of `significand * 10 ^ exponent`, rounded after each of at most three steps: the
significand, the power of ten, and their product or quotient. -/
def ofDecimal? (significand : Nat) (exponent : Int) : Option Magnitude := do
  if significand = 0 then
    return zero
  let m ← ofQuotient? significand 1
  if exponent < 0 then m.divTenPow? (-exponent).toNat
  else if 308 < exponent then none
  else m.mul? (← tenPow? exponent.toNat)

end Magnitude

end Entitlement.Decimal
