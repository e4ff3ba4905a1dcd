import DecisionRules.Json.Basic
import DecisionRules.Number.Decimal

/-!
# Json/NumberText — how numbers are written and read

`Number.text` writes an integer in decimal, and a double with its shortest digits: in full, always
with a point, from `1e-5` up to but excluding `1e16`, and in scientific form with a signed exponent
outside that range. `Number.literal?` takes the longest number that a text starts with, by the
grammar of JSON, and `Literal.number?` says what it denotes. Integers that fit in sixty-four bits
stay integers; minus zero, everything with a point or an exponent, and everything longer becomes the
double that the layer below rounds it to (`Rounding`), and denotes nothing if that is infinite.
-/

namespace DecisionRules.Number

/-! ## Writing -/

/-- A natural in decimal. -/
def natText (n : Nat) : List Char := Nat.toDigits 10 n

/-- An integer in decimal. -/
def intText (n : Int) : List Char :=
  if n < 0 then '-' :: natText n.natAbs else natText n.natAbs

/-- The point stands at most this many places after the first digit when written in full. -/
def widestPoint : Int := 16

/-- The point stands more than this many places after the first digit when written in full. -/
def narrowestPoint : Int := -5

/-- Digits with the point `point` places after their start, filled up with zeros as needed. -/
def plainText (digits : List Char) (point : Int) : List Char :=
  if point ≤ 0 then '0' :: '.' :: List.replicate (-point).toNat '0' ++ digits
  else
    let whole := digits.take point.toNat
    let fraction := digits.drop point.toNat
    let zeros := List.replicate (point.toNat - digits.length) '0'
    whole ++ zeros ++ '.' :: (if fraction.isEmpty then ['0'] else fraction)

/-- Digits with the point after the first one, and an exponent with its sign. -/
def scientificText (digits : List Char) (point : Int) : List Char :=
  let fraction := digits.drop 1
  let exponent := point - 1
  digits.take 1 ++ (if fraction.isEmpty then [] else '.' :: fraction) ++
    'e' :: (if exponent < 0 then '-' else '+') :: natText exponent.natAbs

/-- A decimal, in full or in scientific form by where its point stands. -/
def decimalText (d : Decimal) : List Char :=
  let digits := natText d.digits
  let point : Int := digits.length + d.exponent
  if narrowestPoint < point ∧ point ≤ widestPoint then plainText digits point
  else scientificText digits point

/-- A finite double. -/
def floatText (x : Float) : List Char :=
  let body := decimalText (Decimal.shortest x)
  if Binary64.isNegative x then '-' :: body else body

/-- A number as it is written. -/
def text : Number → List Char
  | .integer n => intText n
  | .double x => floatText x

/-! ## Reading -/

/-- An ASCII digit. -/
def isDigit (c : Char) : Bool := decide ('0' ≤ c ∧ c ≤ '9')

theorem isDigit_eq (c : Char) : isDigit c = c.isDigit := by
  simp [isDigit, Char.isDigit, Char.le_def]

/-- The natural that a list of digits writes. -/
def natOfDigits (digits : List Char) : Nat :=
  digits.foldl (fun n c => n * 10 + (c.toNat - '0'.toNat)) 0

/-- What writes a natural has a digit. -/
theorem natText_ne_nil (n : Nat) : natText n ≠ [] := Nat.toDigits_ne_nil

/-- What writes a natural has digits only. -/
theorem isDigit_of_mem_natText {n : Nat} {c : Char} (h : c ∈ natText n) : isDigit c = true := by
  rw [isDigit_eq]
  exact Nat.isDigit_of_mem_toDigits (by decide) (by decide) h

/-- Digits are read from the left, ten times as much at each place. -/
theorem natOfDigits_eq_ofDigitChars (digits : List Char) :
    natOfDigits digits = Nat.ofDigitChars 10 digits 0 := by
  rw [Nat.ofDigitChars_eq_foldl, natOfDigits]
  exact congrArg (fun f => digits.foldl f 0)
    (funext fun m => funext fun c => by rw [Nat.mul_comm])

/-- **A natural is read back from its decimal text.** -/
@[simp] theorem natOfDigits_natText (n : Nat) : natOfDigits (natText n) = n := by
  rw [natOfDigits_eq_ofDigitChars]
  exact Nat.ofDigitChars_ten_toDigits

/-- A number taken apart: sign, digits before the point, digits after it, exponent. -/
structure Literal where
  /-- Whether a minus sign leads. -/
  negative : Bool
  /-- The digits before the point, at least one. -/
  whole : List Char
  /-- The digits after the point, if there is one. -/
  fraction : Option (List Char)
  /-- The exponent, if there is one. -/
  exponent : Option Int

/-- Splits off the digits that `cs` starts with. -/
def splitDigits (cs : List Char) : List Char × List Char :=
  (cs.takeWhile isDigit, cs.dropWhile isDigit)

/-- The fraction that `cs` starts with, if it starts with a point, and what follows; a point needs a
digit after it. -/
def fraction? : List Char → Option (Option (List Char) × List Char)
  | '.' :: cs =>
    let (digits, rest) := splitDigits cs
    if digits.isEmpty then none else some (some digits, rest)
  | cs => some (none, cs)

/-- The sign that `cs` starts with, true for a minus, and what follows. -/
def splitSign : List Char → Bool × List Char
  | '-' :: rest => (true, rest)
  | '+' :: rest => (false, rest)
  | rest => (false, rest)

/-- The exponent that `cs` starts with, if it starts with `e` or `E`, and what follows; after the
letter and perhaps a sign there is at least one digit. -/
def exponent? : List Char → Option (Option Int × List Char)
  | [] => some (none, [])
  | c :: cs =>
    if c = 'e' ∨ c = 'E' then
      let (negative, cs) := splitSign cs
      let (digits, rest) := splitDigits cs
      let n : Int := natOfDigits digits
      if digits.isEmpty then none else some (some (if negative then -n else n), rest)
    else some (none, c :: cs)

/-- The number that `cs` starts with, by the grammar of JSON, and what follows: no superfluous
leading zero, digits on both sides of a point. -/
def literal? (cs : List Char) : Option (Literal × List Char) := do
  let (negative, cs) :=
    match cs with
    | '-' :: rest => (true, rest)
    | rest => (false, rest)
  let (whole, cs) := splitDigits cs
  if whole.isEmpty || (whole.head? == some '0' && 1 < whole.length) then none
  else
    let (fraction, cs) ← fraction? cs
    let (exponent, cs) ← exponent? cs
    pure (⟨negative, whole, fraction, exponent⟩, cs)

/-- The least integer that stays one. -/
def leastInteger : Int := -Nat.pow 2 63

/-- The least natural too long to stay an integer. -/
def integerLimit : Int := Nat.pow 2 64

/-- The decimal that the parts of a literal write. -/
def Literal.decimal (l : Literal) : Decimal :=
  ⟨natOfDigits (l.whole ++ l.fraction.getD []), l.exponent.getD 0 - (l.fraction.getD []).length⟩

/-- The double a number denotes, unless it is infinite. -/
def Literal.double? [Rounding] (l : Literal) : Option Number :=
  let x := Rounding.round l.negative l.decimal
  if Binary64.isFinite x then some (.double x) else none

/-- The number a literal denotes, if it is not too large. -/
def Literal.number? [Rounding] (l : Literal) : Option Number :=
  let n : Int := natOfDigits l.whole
  let n := if l.negative then -n else n
  if l.fraction.isNone && l.exponent.isNone && decide (leastInteger ≤ n) &&
      decide (n < integerLimit) && !(l.negative && n == 0) then
    some (.integer n)
  else l.double?

end DecisionRules.Number
