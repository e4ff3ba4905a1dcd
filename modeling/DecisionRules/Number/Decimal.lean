import DecisionRules.Number.Binary64

/-!
# Number/Decimal — decimals and the shortest one that names a double

A `Decimal` is `digits · 10 ^ exponent`. `Decimal.nearest` reads one as a double, rounding once.
`Decimal.shortest` goes back: it tries the grids `10 ^ k` from coarse to fine and takes the first
one on which a neighbour of the double reads back as that double. A coarser grid means fewer
digits, and if any point of a grid reads back then one of the two neighbours on it does, so no
decimal with fewer digits names the same double.

Rounding once is what a decimal means here, but not what every layer that reads decimals does: one
that settles for its best effort may round the digits first and then their quotient by a power of
ten, and so miss the nearest double by a place or two. Which double a text comes to is therefore a
parameter, `Rounding`, and `Rounding.toNearest` is the layer that rounds once.
-/

namespace DecisionRules

/-- The number `digits · 10 ^ exponent`. -/
structure Decimal where
  /-- The integer factor. -/
  digits : Nat
  /-- The power of ten. -/
  exponent : Int
  deriving DecidableEq

namespace Decimal

/-- Beyond this many decimal places either way from the point, every double is infinite or zero. -/
def farExponent : Int := 400

/-- The double nearest to a signed decimal. Exponents that put the decimal far outside the range of
doubles are answered without forming the power of ten. -/
def nearest (negative : Bool) (d : Decimal) : Float :=
  if d.digits = 0 then Binary64.nearest negative 0 1
  else if farExponent < d.exponent then Binary64.nearest negative (Nat.pow 10 farExponent.toNat) 1
  else if d.exponent + d.digits.log2 + 1 < -farExponent then Binary64.nearest negative 0 1
  else
    Binary64.nearest negative (d.digits * Nat.pow 10 d.exponent.toNat)
      (Nat.pow 10 (-d.exponent).toNat)

/-- Whether the decimal reads back as the absolute value of `x`. -/
def names (x : Float) (d : Decimal) : Bool :=
  (d.nearest (Binary64.isNegative x)).toBits == x.toBits

/-- The neighbours of `num / den` on the grid `10 ^ k`, the nearer one first. A point halfway
between them counts the even one as nearer. -/
def neighbours (num den : Nat) (k : Int) : List Decimal :=
  let n := num * Nat.pow 10 (-k).toNat
  let d := den * Nat.pow 10 k.toNat
  let low := n / d
  let rest := n % d
  if rest = 0 then [⟨low, k⟩]
  else if 2 * rest < d ∨ (2 * rest = d ∧ low % 2 = 0) then [⟨low, k⟩, ⟨low + 1, k⟩]
  else [⟨low + 1, k⟩, ⟨low, k⟩]

/-- The first hit on the grids `10 ^ k`, `10 ^ (k - 1)`, …, trying `tries` of them. -/
def firstOnGrids (x : Float) (num den : Nat) : Nat → Int → Option Decimal
  | 0, _ => none
  | tries + 1, k =>
    match (neighbours num den k).find? (names x) with
    | some d => some d
    | none => firstOnGrids x num den tries (k - 1)

/-- Every binary magnitude written out in full: `m / 2 ^ n` is `m · 5 ^ n / 10 ^ n`. -/
def exact (m : Binary64.Magnitude) : Decimal :=
  ⟨m.num * Nat.pow 5 (-m.exponent).toNat, min m.exponent 0⟩

/-- A grid at least as coarse as the leading digit of `m`. -/
def leadingExponent (m : Binary64.Magnitude) : Int :=
  ((m.significand.log2 : Int) + m.exponent) * 30103 / 100000 + 2

/-- The absolute value of a finite double in the fewest digits that read back; of several such
decimals, the nearest. Seventeen digits always suffice, so the written-out value is a last resort
that keeps the definition total. -/
def shortest (x : Float) : Decimal :=
  let m := Binary64.magnitude x
  if m.significand = 0 then ⟨0, 0⟩
  else (firstOnGrids x m.num m.den 22 (leadingExponent m)).getD (exact m)

end Decimal

/-- How the layer below turns a decimal that it has read into a double. -/
class Rounding where
  /-- The double for a signed decimal. -/
  round : Bool → Decimal → Float

/-- The layer that rounds correctly. -/
@[reducible] def Rounding.toNearest : Rounding := ⟨Decimal.nearest⟩

end DecisionRules
