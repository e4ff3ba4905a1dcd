import DecisionRules.Rule.Arithmetic
import DecisionRules.Rule.Connective
import DecisionRules.Rule.Lookup
import DecisionRules.Rule.Membership
import DecisionRules.Rule.Quantification

/-!
# Rule/Evaluate — the value of an expression

An object with exactly one key is an operator node, an array is evaluated item by item, and
everything else stands for itself. `Value.run` turns an expression into a computation: it recurses
on the expression alone, handing each operator its sub-expressions as terms. Contexts are data, so
nothing that comes out of one is ever evaluated.
-/

namespace DecisionRules

/-- What an operator does with its arguments. -/
def Operator.apply : Operator → Arguments → Place → Recorded Applied
  | .var => Rule.var
  | .and => Rule.conjunction
  | .or => Rule.disjunction
  | .not => Rule.negation
  | .ifElse => Rule.ifElse
  | .membership => Rule.membership
  | .missing => Rule.missing
  | .missingSome => Rule.missingSome
  | .equal => Rule.equal
  | .notEqual => Rule.notEqual
  | .compare c => Rule.onNumbers (.compare c) (Rule.comparison c)
  | .add => Rule.onNumbers .add Rule.sum
  | .subtract => Rule.onNumbers .subtract Rule.difference
  | .multiply => Rule.onNumbers .multiply Rule.product
  | .divide => Rule.onNumbers .divide Rule.quotient
  | .extremum e => Rule.onNumbers (.extremum e) (Rule.extremum e)
  | .quantify q => Rule.quantification q

/-- Applies an operator and records the one step of its node, the steps of its arguments below
it. -/
def Operator.runNode (operator : Operator) (arguments : Arguments) (place : Place) :
    Recorded Value :=
  match operator.apply arguments place with
  | .error e => Recorded.fail e
  | .ok (applied, children) =>
    Recorded.withSteps applied.result
      [⟨place.path, operator.name, applied.result, some applied.payload, children⟩]

/-- Runs the node whose key is `name`. -/
def runNamed (name : String) (arguments : Arguments) (place : Place) : Recorded Value :=
  match Operator.ofName? name with
  | some operator => operator.runNode arguments place
  | none => Recorded.fail (.unsupportedOperator name place.path)

namespace Value

mutual

/-- Evaluates an expression at a place. -/
def run : Value → Place → Recorded Value
  | .object [(name, .array items)], place => runNamed name (.list (terms items)) place
  | .object [(name, argument)], place =>
    runNamed name (.bare ⟨argument, argument.run⟩) place
  | .object entries, place => Recorded.fail (.malformedNode place.path entries.length)
  | .array items, place => (.array ·) <$> runItems items 0 place
  | literal, _ => pure literal
  termination_by structural e => e

/-- Evaluates the items of an array, from position `i` on. -/
def runItems : List Value → Nat → Place → Recorded (List Value)
  | [], _, _ => pure []
  | e :: rest, i, place => do
    let v ← e.run (place.item i)
    let more ← runItems rest (i + 1) place
    pure (v :: more)
  termination_by structural items => items

/-- Sub-expressions as terms. -/
def terms : List Value → List Term
  | [] => []
  | e :: rest => ⟨e, e.run⟩ :: terms rest
  termination_by structural items => items

end

end Value

/-- What a successful evaluation gives. -/
structure Evaluation where
  result : Value
  trace : List TraceStep

/-- Evaluates an expression in a context. -/
def evaluate (expression context : Value) : Except EvalError Evaluation :=
  match expression.run ⟨context, rootPath⟩ with
  | .error e => .error e
  | .ok (result, trace) => .ok ⟨result, trace⟩

end DecisionRules
