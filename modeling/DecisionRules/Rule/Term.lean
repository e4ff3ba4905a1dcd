import DecisionRules.Json.NumberText
import DecisionRules.Rule.Recorded

/-!
# Rule/Term — sub-expressions as operators see them

An operator does not walk expressions. It gets its arguments as terms, each a sub-expression as
written together with the computation that evaluates it, and decides which of them to run, where
and in which context. So each operator is a plain function, and evaluation recurses in one place
only.
-/

namespace DecisionRules

/-! ## Where a node stands -/

/-- The path of the root of an expression. -/
def rootPath : String := "$"

/-- A position in square brackets. -/
def positionText (i : Nat) : String := "[" ++ String.ofList (Number.natText i) ++ "]"

/-- The role of a sub-expression in its operator node. -/
inductive Role
  /-- The argument at a position. -/
  | argument (i : Nat)
  /-- The condition of a pair in a chain. -/
  | condition (k : Nat)
  /-- What a pair in a chain gives. -/
  | result (k : Nat)
  /-- What is given when nothing else is. -/
  | fallback
  | needle
  | haystack
  | threshold
  | sequence
  /-- The predicate, run on the element at a position. -/
  | predicate (i : Nat)
  deriving DecidableEq

namespace Role

/-- The role as a step of a path. -/
def text : Role → String
  | .argument i => "args" ++ positionText i
  | .condition k => "condition" ++ positionText k
  | .result k => "result" ++ positionText k
  | .fallback => "default"
  | .needle => "needle"
  | .haystack => "haystack"
  | .threshold => "min"
  | .sequence => "sequence"
  | .predicate i => "predicate" ++ positionText i

end Role

/-- What evaluating an expression depends on besides the expression: the context it reads and the
path it reports. -/
structure Place where
  context : Value
  path : String

namespace Place

/-- The place of a sub-expression with a role in the node at this place. -/
def child (p : Place) (role : Role) : Place := { p with path := p.path ++ "." ++ role.text }

/-- The place of an item of the array at this place. -/
def item (p : Place) (i : Nat) : Place := { p with path := p.path ++ positionText i }

end Place

/-! ## Terms -/

/-- A sub-expression: how it is written, and what evaluating it does. -/
structure Term where
  written : Value
  run : Place → Recorded Value

/-- What stands under the key of an operator node. -/
inductive Arguments
  /-- An array of arguments. -/
  | list (terms : List Term)
  /-- Anything else. -/
  | bare (term : Term)

/-- What an operator gives: its result, and what explains it in the trace. -/
structure Applied where
  result : Value
  payload : Value

/-- The arguments of an operator that takes only an array of them. -/
def Arguments.asList (operator : Operator) : Arguments → Recorded (List Term)
  | .list terms => Recorded.ofValue terms
  | .bare _ => Recorded.fail (.invalidArguments operator .notArray)

/-- The arguments of an operator that takes exactly two, `fault` being what is wrong otherwise. -/
def Arguments.asPair (operator : Operator) (fault : ArgumentFault) :
    Arguments → Recorded (Term × Term)
  | .list [first, second] => Recorded.ofValue (first, second)
  | _ => Recorded.fail (.invalidArguments operator fault)

/-- The number that a value is. -/
def asNumber (operator : Operator) : Value → Recorded Float
  | .number x => Recorded.ofValue x
  | other => Recorded.fail (.notNumeric operator other)

/-- The text that a sub-expression is written as. -/
def asWrittenString (operator : Operator) (what : String) (written : Value) : Recorded String :=
  Recorded.ofOption (.invalidArguments operator (.notString what)) written.string?

/-- Runs arguments in order, from position `i` on, up to and including the first whose value
satisfies `stop`; gives the values seen. -/
def runUntil (stop : Value → Bool) (place : Place) : Nat → List Term → Recorded (List Value)
  | _, [] => pure []
  | i, t :: rest => do
    let v ← t.run (place.child (.argument i))
    if stop v then pure [v]
    else
      let more ← runUntil stop place (i + 1) rest
      pure (v :: more)

/-- Runs all arguments in order, from position `i` on. -/
def runEach (place : Place) (i : Nat) (terms : List Term) : Recorded (List Value) :=
  runUntil (fun _ => false) place i terms

/-- Runs arguments in order, from position `i` on, up to the first whose value is no number. -/
def runNumbers (operator : Operator) (place : Place) : Nat → List Term → Recorded (List Float)
  | _, [] => pure []
  | i, t :: rest => do
    let v ← t.run (place.child (.argument i))
    let x ← asNumber operator v
    let more ← runNumbers operator place (i + 1) rest
    pure (x :: more)

/-- Numbers as they are shown in a trace. -/
def numbersPayload (numbers : List Float) : Value := .array (numbers.map .number)

end DecisionRules
