/-! # The Edwards curve of Ed25519

Points of the twisted Edwards curve `-x² + y² = 1 + d x² y²` over the field of `2 ^ 255 - 19`
elements, in extended coordinates `(X : Y : Z : T)` with `x = X / Z`, `y = Y / Z` and
`X Y = Z T`. Field elements are natural numbers below the modulus.
-/

namespace Entitlement.Signature.Edwards

/-- The number of elements of the field. -/
def modulus : Nat := Nat.pow 2 255 - 19

/-- The order of the base point. -/
def order : Nat := Nat.pow 2 252 + 27742317777372353535851937790883648493

def add (a b : Nat) : Nat := (a + b) % modulus

def sub (a b : Nat) : Nat := (a + (modulus - b)) % modulus

def mul (a b : Nat) : Nat := a * b % modulus

def neg (a : Nat) : Nat := (modulus - a) % modulus

/-- The binary digits of a number, the highest of `count` digits first. -/
def bits (count n : Nat) : List Bool :=
  (List.range count).reverse.map n.testBit

/-- A power of a field element, with an exponent below `2 ^ 255`. -/
def pow (a exponent : Nat) : Nat :=
  (bits 255 exponent).foldl
    (fun power bit =>
      let square := mul power power
      if bit then mul square a else square) 1

/-- The inverse of a field element; zero for zero. -/
def inverse (a : Nat) : Nat := pow a (modulus - 2)

/-- The parameter of the curve. -/
def d : Nat :=
  37095705934669439343138083508754565189542113879843219016388785533085940283555

/-- A square root of minus one. -/
def rootOfMinusOne : Nat :=
  19681161376707505956807079304988542015446066515923890162744021073123829784752

/-- A point in extended coordinates. -/
structure Point where
  x : Nat
  y : Nat
  z : Nat
  t : Nat

namespace Point

/-- The neutral point. -/
def identity : Point := ⟨0, 1, 1, 0⟩

/-- The base point. -/
def base : Point :=
  let x := 15112221349535400772501151409588531511454012693041857206046113283949847762202
  let y := 46316835694926478169428394003475163141307993866256225615783033603165251855960
  ⟨x, y, 1, mul x y⟩

/-- The sum of two points. -/
def plus (p q : Point) : Point :=
  let a := mul (sub p.y p.x) (sub q.y q.x)
  let b := mul (add p.y p.x) (add q.y q.x)
  let c := mul (mul p.t (add d d)) q.t
  let e := mul (add p.z p.z) q.z
  let f := sub b a
  let g := sub e c
  let h := add e c
  let i := add b a
  ⟨mul f g, mul h i, mul g h, mul f i⟩

/-- The sum of a point with itself. -/
def double (p : Point) : Point :=
  let a := mul p.x p.x
  let b := mul p.y p.y
  let c := mul p.z p.z
  let h := add a b
  let s := add p.x p.y
  let e := sub h (mul s s)
  let g := sub a b
  let f := add (add c c) g
  ⟨mul e f, mul g h, mul f g, mul e h⟩

def negate (p : Point) : Point := ⟨neg p.x, p.y, p.z, neg p.t⟩

/-- A multiple of a point, with a factor below `2 ^ 256`. -/
def times (factor : Nat) (p : Point) : Point :=
  (bits 256 factor).foldl
    (fun sum bit => if bit then sum.double.plus p else sum.double) identity

/-- The sum of multiples of two points, with factors below `2 ^ 256`. -/
def timesTwo (m : Nat) (p : Point) (n : Nat) (q : Point) : Point :=
  let both := p.plus q
  ((bits 256 m).zip (bits 256 n)).foldl
    (fun sum digits =>
      let sum := sum.double
      match digits with
      | (true, true) => sum.plus both
      | (true, false) => sum.plus p
      | (false, true) => sum.plus q
      | (false, false) => sum) identity

/-- Whether eight times a point is the neutral point. -/
def isSmallOrder (p : Point) : Bool :=
  let q := p.double.double.double
  q.x == 0 && q.y == q.z

end Point

/-- The number of a byte string, the lowest byte first. -/
def littleEndian : List UInt8 → Nat
  | [] => 0
  | b :: rest => b.toNat + 256 * littleEndian rest

/-- The bytes of a number, the lowest first. -/
def toLittleEndian (count n : Nat) : List UInt8 :=
  match count with
  | 0 => []
  | count + 1 => UInt8.ofNat (n % 256) :: toLittleEndian count (n / 256)

theorem toLittleEndian_length (count n : Nat) : (toLittleEndian count n).length = count := by
  induction count generalizing n with
  | zero => rfl
  | succ count ih => simp [toLittleEndian, ih]

/-- The even square root of a quotient of field elements, if it has one. -/
def rootOfQuotient? (u v : Nat) : Option Nat :=
  let v3 := mul (mul v v) v
  let v7 := mul (mul v3 v3) v
  let root := mul (mul u v3) (pow (mul u v7) ((modulus - 5) / 8))
  let check := mul v (mul root root)
  let even (r : Nat) : Nat := if r % 2 = 0 then r else neg r
  if check = u then some (even root)
  else if check = neg u then some (even (mul root rootOfMinusOne))
  else none

/-- The point whose `y` coordinate and sign of `x` are given by 32 bytes. The coordinate may be
written with a number above the modulus, and zero with either sign. -/
def Point.decode? (bytes : List UInt8) : Option Point :=
  let n := littleEndian bytes
  let isOdd := n.testBit 255
  let y := n % Nat.pow 2 255 % modulus
  let square := mul y y
  match rootOfQuotient? (sub square 1) (add (mul d square) 1) with
  | none => none
  | some root =>
    let x := if isOdd then neg root else root
    some ⟨x, y, 1, mul x y⟩

/-- The 32 bytes of a point. -/
def Point.encode (p : Point) : List UInt8 :=
  let zInverse := inverse p.z
  let x := mul p.x zInverse
  let y := mul p.y zInverse
  toLittleEndian 32 (y + x % 2 * Nat.pow 2 255)

end Entitlement.Signature.Edwards
