/-!
# Rule/Operator — the operators a rule may use

The registry is closed: evaluation and validation both find an operator by its name in
`Operator.all`, so they agree on which names there are.
-/

namespace DecisionRules

/-- A relation between two numbers. -/
inductive Comparison
  | greater
  | greaterEqual
  | less
  | lessEqual
  deriving DecidableEq

/-- Which end of a list of numbers is asked for. -/
inductive Extremum
  | max
  | min
  deriving DecidableEq

/-- How the outcomes of a predicate on the elements of a sequence combine. -/
inductive Quantifier
  | all
  | any
  | none
  deriving DecidableEq

/-- What an operator node does. -/
inductive Operator
  | var
  | and
  | or
  | not
  | ifElse
  | membership
  | missing
  | missingSome
  | equal
  | notEqual
  | compare (c : Comparison)
  | add
  | subtract
  | multiply
  | divide
  | extremum (e : Extremum)
  | quantify (q : Quantifier)
  deriving DecidableEq

namespace Operator

/-- The key of a node with this operator. -/
def name : Operator → String
  | .var => "var"
  | .and => "and"
  | .or => "or"
  | .not => "!"
  | .ifElse => "if"
  | .membership => "in"
  | .missing => "missing"
  | .missingSome => "missing_some"
  | .equal => "=="
  | .notEqual => "!="
  | .compare .greater => ">"
  | .compare .greaterEqual => ">="
  | .compare .less => "<"
  | .compare .lessEqual => "<="
  | .add => "+"
  | .subtract => "-"
  | .multiply => "*"
  | .divide => "/"
  | .extremum .max => "max"
  | .extremum .min => "min"
  | .quantify .all => "bl_all"
  | .quantify .any => "bl_any"
  | .quantify .none => "bl_none"

/-- Every operator, in the order of the registry. -/
def all : List Operator :=
  [.var, .and, .or, .not, .ifElse, .membership, .missing, .missingSome, .equal, .notEqual,
    .compare .greater, .compare .greaterEqual, .compare .less, .compare .lessEqual,
    .add, .subtract, .multiply, .divide, .extremum .max, .extremum .min,
    .quantify .all, .quantify .any, .quantify .none]

/-- The operator with a name. -/
def ofName? (name : String) : Option Operator := all.find? (·.name == name)

end Operator

end DecisionRules
