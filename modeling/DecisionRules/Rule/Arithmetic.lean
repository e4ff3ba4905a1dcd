import DecisionRules.Rule.Term

/-!
# Rule/Arithmetic — equality, comparison and arithmetic

Equality is structural and takes any values. The other operators run their arguments in order, stop
at the first that is no number, and then fold the doubles from the left.
-/

namespace DecisionRules.Rule

/-! ## Equality -/

/-- `==`: whether every argument equals the first. -/
def equal (arguments : Arguments) (place : Place) : Recorded Applied := do
  let terms ← arguments.asList .equal
  match ← runEach place 0 terms with
  | [] => Recorded.fail (.invalidArguments .equal .noArgument)
  | first :: rest => pure ⟨.bool (rest.all (· == first)), .array (first :: rest)⟩

/-- `!=`: whether some argument differs from the first. -/
def notEqual (arguments : Arguments) (place : Place) : Recorded Applied := do
  let terms ← arguments.asList .notEqual
  match ← runEach place 0 terms with
  | first :: second :: rest =>
    pure ⟨.bool ((second :: rest).any (fun v => !(v == first))), .array (first :: second :: rest)⟩
  | _ => Recorded.fail (.invalidArguments .notEqual .fewerThanTwo)

/-! ## Numbers -/

/-- An operator that runs all its arguments as numbers and computes its result from them. -/
def onNumbers (operator : Operator) (compute : List Float → Except EvalError Value)
    (arguments : Arguments) (place : Place) : Recorded Applied := do
  let terms ← arguments.asList operator
  let numbers ← runNumbers operator place 0 terms
  match compute numbers with
  | .ok result => pure ⟨result, numbersPayload numbers⟩
  | .error e => Recorded.fail e

/-- Whether two numbers stand in a relation; none does with the number that is not a number. -/
def holds : Comparison → Float → Float → Bool
  | .greater, x, y => decide (x > y)
  | .greaterEqual, x, y => decide (x ≥ y)
  | .less, x, y => decide (x < y)
  | .lessEqual, x, y => decide (x ≤ y)

/-- Whether a relation holds between all neighbours. -/
def holdsAlong (r : Float → Float → Bool) : List Float → Bool
  | x :: y :: rest => r x y && holdsAlong r (y :: rest)
  | _ => true

/-- A chained comparison of at least two numbers. -/
def comparison (c : Comparison) (numbers : List Float) : Except EvalError Value :=
  if numbers.length < 2 then .error (.invalidArguments (.compare c) .fewerThanTwo)
  else .ok (.bool (holdsAlong (holds c) numbers))

/-- The sum, zero if there is nothing to add. -/
def sum (numbers : List Float) : Except EvalError Value :=
  .ok (.number (numbers.foldl (· + ·) 0))

/-- One number negated, or the first number less all others. -/
def difference : List Float → Except EvalError Value
  | [] => .error (.invalidArguments .subtract .noArgument)
  | [single] => .ok (.number (-single))
  | first :: rest => .ok (.number (rest.foldl (· - ·) first))

/-- The product, one if there is nothing to multiply. -/
def product (numbers : List Float) : Except EvalError Value :=
  .ok (.number (numbers.foldl (· * ·) 1))

/-- Divides a number by the divisors in order, up to the first that is zero. -/
def divideBy (dividend : Float) : List Float → Except EvalError Float
  | [] => .ok dividend
  | divisor :: rest =>
    if divisor == 0 then .error .divisionByZero else divideBy (dividend / divisor) rest

/-- The first number divided by all others, of which there is at least one. -/
def quotient : List Float → Except EvalError Value
  | first :: second :: rest => (divideBy first (second :: rest)).map .number
  | _ => .error (.invalidArguments .divide .fewerThanTwo)

/-- The greater or the smaller of two numbers; the number that is not a number gives way. -/
def pick (e : Extremum) (x y : Float) : Float :=
  if x.isNaN then y
  else if y.isNaN then x
  else
    match e with
    | .max => if x < y then y else x
    | .min => if y < x then y else x

/-- The extremum of at least one number. -/
def extremum (e : Extremum) : List Float → Except EvalError Value
  | [] => .error (.invalidArguments (.extremum e) .noArgument)
  | first :: rest => .ok (.number (rest.foldl (pick e) first))

end DecisionRules.Rule
