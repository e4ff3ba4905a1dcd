import DecisionRules.Rule.Operator
import DecisionRules.Value.Document

/-!
# Rule/EvalError — why an expression has no value

Every cause lies in the expression or in its context. `EvalError.message` gives each cause its one
wording.
-/

namespace DecisionRules

/-- What is wrong with the arguments of an operator. -/
inductive ArgumentFault
  /-- The arguments are not an array. -/
  | notArray
  /-- Not the two arguments of a quantifier. -/
  | notSequenceAndPredicate
  /-- The sequence of a quantifier is a value without elements. -/
  | notIterable (found : Value)
  /-- A path or key is not written as a string. -/
  | notString (what : String)
  /-- Not the two arguments of a `missing_some`. -/
  | notThresholdAndKeys
  /-- Not two arguments. -/
  | notPair
  /-- The haystack is a value that nothing is in. -/
  | notSearchable (found : Value)
  /-- Not one argument. -/
  | notSingle
  /-- A chain of conditions without any. -/
  | noCondition
  /-- No argument where at least one is needed. -/
  | noArgument
  /-- Fewer than two arguments where at least two are needed. -/
  | fewerThanTwo

namespace ArgumentFault

/-- The fault in words, to follow the name of the operator. -/
def message : ArgumentFault → String
  | .notArray => "expects an array argument"
  | .notSequenceAndPredicate => "expects a sequence expression and a predicate expression"
  | .notIterable found => "expects an iterable sequence, got " ++ found.typeName
  | .notString what => what ++ " must be a string"
  | .notThresholdAndKeys => "expects a threshold and a list of keys"
  | .notPair => "expects two arguments"
  | .notSearchable found => "cannot search a " ++ found.typeName ++ " haystack"
  | .notSingle => "expects a single argument"
  | .noCondition => "requires at least one condition"
  | .noArgument => "requires at least one argument"
  | .fewerThanTwo => "requires at least two arguments"

end ArgumentFault

/-- Why an expression is refused or cannot be evaluated. -/
inductive EvalError
  /-- An object with any number of keys but one. -/
  | malformedNode (path : String) (keys : Nat)
  /-- The key of a node is not in the registry. -/
  | unsupportedOperator (operator : String) (path : String)
  /-- An operator got arguments of the wrong number or shape. -/
  | invalidArguments (operator : Operator) (fault : ArgumentFault)
  /-- An operator on numbers got another value. -/
  | notNumeric (operator : Operator) (value : Value)
  /-- A divisor is zero. -/
  | divisionByZero

namespace EvalError

/-- The error in words. -/
def message : EvalError → String
  | .malformedNode path keys =>
    "malformed node at " ++ path ++ ": expected exactly one operator, found " ++ toString keys ++
      " keys"
  | .unsupportedOperator operator path => "unsupported operator '" ++ operator ++ "' at " ++ path
  | .invalidArguments operator fault => "'" ++ operator.name ++ "' " ++ fault.message
  | .notNumeric operator value =>
    "'" ++ operator.name ++ "' expects numbers, got " ++ value.typeName ++ " value " ++ value.text
  | .divisionByZero => "division by zero is not allowed"

end EvalError

end DecisionRules
