/-!
# Number/Binary64 — doubles as integers times powers of two

A finite double is `± m · 2 ^ e` for a natural `m < 2 ^ 53` and `-1074 ≤ e`. `Magnitude` is that
pair, read off the 64 bits (`magnitude`), and `nearest` goes the other way: the double nearest to a
quotient of two naturals, a tie going to the even significand and everything from
`2 ^ 1024 - 2 ^ 970` on being infinite.

Nothing here is floating-point arithmetic: the quotient is rounded as an integer on the grid
`2 ^ e`, and the bits are assembled from the rounded integer.
-/

namespace DecisionRules.Binary64

/-! ## Reading the bits

The layout is one sign bit, eleven bits of biased exponent, fifty-two of fraction. -/

/-- How many fractions there are: the weight of one step of the exponent field. -/
def fractionCount : Nat := Nat.pow 2 52

/-- The exponent field that marks infinities and the value that is not a number. -/
def topExponent : Nat := 2047

/-- The weight of the sign bit. -/
def signWeight : Nat := Nat.pow 2 63

/-- The exponent of the finest grid, the one subnormal doubles lie on. -/
def finestExponent : Int := -1074

/-- Whether the sign bit is set; `-0.0` is negative here. -/
def isNegative (x : Float) : Bool := decide (signWeight ≤ x.toBits.toNat)

/-- The exponent field. -/
def exponentField (x : Float) : Nat := x.toBits.toNat / fractionCount % Nat.pow 2 11

/-- The fraction field. -/
def fractionField (x : Float) : Nat := x.toBits.toNat % fractionCount

/-- Neither infinite nor the value that is not a number. -/
def isFinite (x : Float) : Bool := exponentField x != topExponent

/-- The number `significand · 2 ^ exponent`. -/
structure Magnitude where
  /-- The integer factor. -/
  significand : Nat
  /-- The power of two. -/
  exponent : Int
  deriving DecidableEq

/-- The absolute value of a finite double. A zero exponent field means the finest grid without the
hidden leading bit. -/
def magnitude (x : Float) : Magnitude :=
  if exponentField x = 0 then ⟨fractionField x, finestExponent⟩
  else ⟨fractionCount + fractionField x, exponentField x - 1075⟩

namespace Magnitude

/-- The numerator of the value as a quotient of naturals. -/
def num (m : Magnitude) : Nat := m.significand * Nat.pow 2 m.exponent.toNat

/-- The denominator of the value as a quotient of naturals. -/
def den (m : Magnitude) : Nat := Nat.pow 2 (-m.exponent).toNat

end Magnitude

/-- The integer a finite double is, if it is one. -/
def toInt? (x : Float) : Option Int :=
  let m := magnitude x
  if isFinite x && m.num % m.den == 0 then
    let n : Int := (m.num / m.den : Nat)
    some (if isNegative x then -n else n)
  else none

/-! ## Rounding a quotient -/

/-- `num / den` rounded to the nearest natural, a tie going to the even one. -/
def roundHalfEven (num den : Nat) : Nat :=
  let quotient := num / den
  let remainder := num % den
  if 2 * remainder < den then quotient
  else if 2 * remainder = den ∧ quotient % 2 = 0 then quotient
  else quotient + 1

/-- `num / den` divided by `2 ^ e`, still as a quotient of naturals. -/
def scale (num den : Nat) (e : Int) : Nat × Nat :=
  (num * Nat.pow 2 (-e).toNat, den * Nat.pow 2 e.toNat)

/-- The grid on which `num / den` has fifty-three binary digits, or the finest grid if that one is
finer still. -/
def gridExponent (num den : Nat) : Int :=
  let low : Int := (num.log2 : Int) - den.log2 - 53
  let scaled := scale num den low
  let fitted := if Nat.pow 2 53 * scaled.2 ≤ scaled.1 then low + 1 else low
  max fitted finestExponent

/-- The bits of the nonnegative double nearest to `num / den`. The exponent field counts grids from
the finest one, and a significand that rounds up to `2 ^ 53` carries into it. -/
def nearestBits (num den : Nat) : Nat :=
  if num = 0 then 0
  else
    let e := gridExponent num den
    let scaled := scale num den e
    min ((e - finestExponent).toNat * fractionCount + roundHalfEven scaled.1 scaled.2)
      (topExponent * fractionCount)

/-- The double nearest to `± num / den`, infinite when that is too large. -/
def nearest (negative : Bool) (num den : Nat) : Float :=
  Float.ofBits (.ofNat ((if negative then signWeight else 0) + nearestBits num den))

/-- The double nearest to an integer. -/
def ofInt (n : Int) : Float := nearest (decide (n < 0)) n.natAbs 1

end DecisionRules.Binary64
