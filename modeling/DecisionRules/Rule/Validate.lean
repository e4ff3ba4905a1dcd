import DecisionRules.Rule.Term

/-!
# Rule/Validate — whether an expression is well-built

Validation looks at the shape of nodes and the names of operators and evaluates nothing. Its paths
name the operators entered, so they differ from those of an evaluation.
-/

namespace DecisionRules

namespace Value

mutual

/-- The first node of an expression, read from the front, that is not well-built. -/
def validateAt : Value → String → Except EvalError Unit
  | .object [(name, argument)], path =>
    if (Operator.ofName? name).isSome then argument.validateAt (path ++ "." ++ name)
    else .error (.unsupportedOperator name path)
  | .object entries, path => .error (.malformedNode path entries.length)
  | .array items, path => validateItems items 0 path
  | _, _ => .ok ()
  termination_by structural e => e

/-- The first node among the items of an array, from position `i` on, that is not well-built. -/
def validateItems : List Value → Nat → String → Except EvalError Unit
  | [], _, _ => .ok ()
  | e :: rest, i, path => do
    e.validateAt (path ++ positionText i)
    validateItems rest (i + 1) path
  termination_by structural items => items

end

end Value

/-- Whether every object in an expression is a node with a registered operator. -/
def validate (expression : Value) : Except EvalError Unit := expression.validateAt rootPath

end DecisionRules
