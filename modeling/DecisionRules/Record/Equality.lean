import DecisionRules.Engine.Request

/-!
# Record/Equality — when two records are equal

Records are equal field by field, lists item by item, and optional fields if both are absent or both
are there and equal. Values compare as `Value` has it: the order of keys does not count, and what is
not a number is not equal to itself. Timestamps are equal if they are the same moment in the same
offset.
-/

namespace DecisionRules

instance {α : Type} [BEq α] : BEq (KeyMap α) := ⟨fun m n => m.entries == n.entries⟩

namespace TraceStep

mutual

/-- Equality of steps, with everything below them. -/
def beq : TraceStep → TraceStep → Bool
  | ⟨path, operator, result, arguments, children⟩, t =>
    path == t.path && operator == t.operator && result == t.result && arguments == t.arguments &&
      beqAll children t.children
  termination_by structural s => s

/-- Equality of forests, step by step. -/
def beqAll : List TraceStep → List TraceStep → Bool
  | [], [] => true
  | s :: rest, t :: others => s.beq t && beqAll rest others
  | _, _ => false
  termination_by structural forest => forest

end

instance : BEq TraceStep := ⟨beq⟩

end TraceStep

deriving instance BEq for RegressionCase, RuleVersion, RuleSummary, RuleListing, Receipt, Artifact,
  EvaluationRequest, EvaluationResponse, CaseOutcome, RegressionReport

end DecisionRules
