import DecisionRules.Audit.Artifact
import DecisionRules.Catalog.Check
import DecisionRules.Rule.EvalError

/-!
# Engine/Request — what an engine is asked and what it answers

An evaluation names an expression, either in place or by the rule it belongs to. A regression run
names a rule, and perhaps cases to use instead of the stored ones.
-/

namespace DecisionRules

/-- What to evaluate, and in which context. An expression given in place takes precedence over a
rule. -/
structure EvaluationRequest where
  logic : Option Value
  stableId : Option String
  version : Option Nat
  context : Value
  preferLatest : Bool

/-- The outcome of an evaluation, with the receipt for its artifact. -/
structure EvaluationResponse where
  stableId : Option String
  version : Option Nat
  result : Value
  trace : List TraceStep
  proof : Receipt

/-- Which version of a rule to test, and against which cases; without cases, against the stored
ones. -/
structure RegressionRequest where
  stableId : String
  version : Option Nat
  preferLatest : Bool
  cases : List RegressionCase

/-- How one regression case went. -/
structure CaseOutcome where
  name : String
  description : Option String
  success : Bool
  expected : Value
  actual : Value
  trace : List TraceStep

/-- How a regression run went. -/
structure RegressionReport where
  stableId : String
  version : Nat
  total : Nat
  passed : Nat
  failed : Nat
  cases : List CaseOutcome

namespace RegressionReport

/-- Whether no case failed. -/
def allPassed (r : RegressionReport) : Bool := r.failed == 0

/-- The cases that failed. -/
def failures (r : RegressionReport) : List CaseOutcome := r.cases.filter fun c => !c.success

end RegressionReport

/-- Why an engine does not do what it is asked to. -/
inductive EngineError
  | eval (e : EvalError)
  | catalog (e : CatalogError)
  /-- No artifact has this id. -/
  | artifactNotFound (id : String)
  /-- There is nothing to test the version with. -/
  | noRegressionCases (stableId : String) (version : Nat)
  /-- An evaluation names neither an expression nor a rule. -/
  | missingTarget

namespace EngineError

/-- The error in words. -/
def message : EngineError → String
  | .eval e => e.message
  | .catalog e => e.message
  | .artifactNotFound id => "unknown artifact id '" ++ id ++ "'"
  | .noRegressionCases id version =>
    "no regression cases were provided or stored for " ++ id ++ " v" ++ toString version
  | .missingTarget => "evaluation request names neither an inline expression nor a stable id"

end EngineError

end DecisionRules
