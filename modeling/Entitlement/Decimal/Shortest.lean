import Entitlement.Decimal.Binary64
import Entitlement.Text.Blank

/-! # The shortest decimal text of a magnitude

Of the decimals that round to a magnitude, the text shows one with the fewest digits, of those the
nearest, and of two that are as near the even one. Values from a hundred-thousandth up to below ten
to the sixteenth are written with a point, all others with an exponent.
-/

namespace Entitlement.Decimal

/-- The decimal `digits * 10 ^ exponent`. -/
structure Numeral where
  digits : Nat
  exponent : Int

namespace Magnitude

/-- Whether a decimal rounds to a magnitude: it lies between the midpoints to the two neighbours,
where a midpoint itself goes to the even mantissa. -/
def isRoundingOf (m : Magnitude) (d : Numeral) : Bool :=
  let shift := m.exponent - 2
  let below := if m.mantissa = Nat.pow 2 52 ∧ -1074 < m.exponent then 1 else 2
  let low := (4 * m.mantissa - below) * Nat.pow 2 shift.toNat * Nat.pow 10 (-d.exponent).toNat
  let high := (4 * m.mantissa + 2) * Nat.pow 2 shift.toNat * Nat.pow 10 (-d.exponent).toNat
  let value := d.digits * Nat.pow 10 d.exponent.toNat * Nat.pow 2 (-shift).toNat
  if m.mantissa % 2 = 0 then low ≤ value ∧ value ≤ high else low < value ∧ value < high

/-- The exponent of the highest power of ten that is at most the magnitude. -/
def log10 (m : Magnitude) : Int :=
  let (num, den) := m.quotient
  let isAtMost (e : Int) : Bool := den * Nat.pow 10 e.toNat ≤ num * Nat.pow 10 (-e).toNat
  (((List.range 634).map fun (i : Nat) => (309 : Int) - i).find? isAtMost).getD 0

/-- The nearest decimal with at most `count` digits that rounds to the magnitude; of two that are as
near, the even one. -/
def withDigits? (m : Magnitude) (count : Nat) : Option Numeral :=
  let exponent := m.log10 - count + 1
  let (num, den) := m.quotient
  let num := num * Nat.pow 10 (-exponent).toNat
  let den := den * Nat.pow 10 exponent.toNat
  let down : Numeral := ⟨num / den, exponent⟩
  let up : Numeral := ⟨num / den + 1, exponent⟩
  let isUp := roundDiv num den ≠ num / den
  let near := if isUp then [up, down] else [down, up]
  near.find? m.isRoundingOf

/-- A shortest decimal that rounds to the magnitude. -/
def shortest (m : Magnitude) : Numeral :=
  if m.mantissa = 0 then ⟨0, 0⟩
  else
    ((List.range 17).findSome? fun i => m.withDigits? (i + 1)).getD ⟨m.mantissa, m.exponent⟩

end Magnitude

/-- The digits without zeros at the end. -/
def Numeral.trimmed (d : Numeral) : List Char :=
  let digits := ((toString d.digits).toList.reverse.dropWhile (· == '0')).reverse
  if digits.isEmpty then ['0'] else digits

/-- Writes a decimal exponent with its sign and at least two digits. -/
def exponentText (e : Int) : String :=
  (if e < 0 then "e-" else "e+") ++ Text.padded 2 e.natAbs

/-- How many digits stand before the point of a decimal; none or a negative number when zeros follow
the point. -/
def Numeral.point (d : Numeral) : Int :=
  (toString d.digits).length + d.exponent

/-- The text of a magnitude. -/
def Magnitude.text (m : Magnitude) : String :=
  let digits := m.shortest.trimmed
  if m.mantissa = 0 then "0.0"
  else
    let point := m.shortest.point
    let count : Int := digits.length
    if 0 < point ∧ point ≤ 16 then
      if count ≤ point then
        String.ofList (digits ++ List.replicate (point - count).toNat '0') ++ ".0"
      else
        String.ofList (digits.take point.toNat) ++ "." ++ String.ofList (digits.drop point.toNat)
    else if -5 < point ∧ point ≤ 0 then
      "0." ++ String.ofList (List.replicate (-point).toNat '0' ++ digits)
    else
      let fraction := digits.drop 1
      String.ofList (digits.take 1) ++
        (if fraction.isEmpty then "" else "." ++ String.ofList fraction) ++
        exponentText (point - 1)

end Entitlement.Decimal
