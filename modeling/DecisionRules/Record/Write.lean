import DecisionRules.Engine.Request
import DecisionRules.Value.Document

/-!
# Record/Write — records as JSON

Fields come in the order of the record's shape. What is absent is written as `null`, except for the
arguments of a trace step and the description of a regression case, which are left out.
-/

namespace DecisionRules

namespace Json

/-- What may be absent, `null` if it is. -/
def ofOption {α : Type} (f : α → Json) : Option α → Json
  | some a => f a
  | none => .null

/-- A natural as an integer. -/
def ofNat (n : Nat) : Json := .number (.integer n)

/-- An entry, or none if there is nothing to put into it. -/
def entryIfPresent {α : Type} (key : String) (f : α → Json) : Option α → List (String × Json)
  | some a => [(key, f a)]
  | none => []

end Json

namespace TraceStep

mutual

/-- A step as JSON. -/
def toJson : TraceStep → Json
  | ⟨path, operator, result, arguments, children⟩ =>
    .object ([("path", .string path), ("operator", .string operator),
      ("result", result.document)] ++
      Json.entryIfPresent "arguments" Value.document arguments ++
      [("children", .array (toJsonAll children))])
  termination_by structural s => s

/-- Each step as JSON. -/
def toJsonAll : List TraceStep → List Json
  | [] => []
  | s :: rest => s.toJson :: toJsonAll rest
  termination_by structural forest => forest

end

end TraceStep

/-- A trace as JSON. -/
def traceJson (trace : List TraceStep) : Json := .array (TraceStep.toJsonAll trace)

/-- A moment as JSON. -/
def Timestamp.toJson (t : Timestamp) : Json := .string t.text

/-- Labels as JSON, sorted by name. -/
def labelsJson (labels : KeyMap String) : Json :=
  .object (labels.entries.map fun (name, text) => (name, .string text))

/-- A status as JSON. -/
def RuleStatus.toJson (s : RuleStatus) : Json := .string s.name

/-- A regression case as JSON. -/
def RegressionCase.toJson (c : RegressionCase) : Json :=
  .object ([("name", .string c.name), ("context", c.context.document),
    ("expected", c.expected.document)] ++
    Json.entryIfPresent "description" Json.string c.description)

/-- A version as JSON. -/
def RuleVersion.toJson (v : RuleVersion) : Json :=
  .object [("stable_id", .string v.stableId), ("version", .ofNat v.version),
    ("name", .string v.name), ("description", .ofOption .string v.description),
    ("labels", labelsJson v.labels), ("definition", v.definition.document),
    ("status", v.status.toJson), ("created_at", v.createdAt.toJson),
    ("updated_at", v.updatedAt.toJson),
    ("published_at", .ofOption Timestamp.toJson v.publishedAt),
    ("revision_notes", .ofOption .string v.revisionNotes),
    ("regression_cases", .array (v.regressionCases.map RegressionCase.toJson))]

/-- A draft as JSON. -/
def RuleDraft.toJson (d : RuleDraft) : Json :=
  .object [("stable_id", .string d.stableId), ("name", .string d.name),
    ("description", .ofOption .string d.description), ("definition", d.definition.document),
    ("labels", labelsJson d.labels), ("revision_notes", .ofOption .string d.revisionNotes),
    ("regression_cases", .array (d.regressionCases.map RegressionCase.toJson))]

/-- A summary as JSON. -/
def RuleSummary.toJson (s : RuleSummary) : Json :=
  .object [("stable_id", .string s.stableId), ("name", .string s.name),
    ("description", .ofOption .string s.description), ("labels", labelsJson s.labels),
    ("latest_version", .ofNat s.latestVersion),
    ("published_version", .ofOption Json.ofNat s.publishedVersion),
    ("status", s.status.toJson)]

/-- A listing as JSON. -/
def RuleListing.toJson (l : RuleListing) : Json :=
  .object [("total", .ofNat l.total), ("rules", .array (l.rules.map RuleSummary.toJson))]

/-- A receipt as JSON. -/
def Receipt.toJson (r : Receipt) : Json :=
  .object [("id", .string r.id), ("created_at", r.createdAt.toJson),
    ("stable_id", .ofOption .string r.stableId), ("version", .ofOption Json.ofNat r.version)]

/-- An artifact as JSON. -/
def Artifact.toJson (a : Artifact) : Json :=
  .object [("id", .string a.id), ("stable_id", .ofOption .string a.stableId),
    ("version", .ofOption Json.ofNat a.version), ("definition", a.definition.document),
    ("context", a.context.document), ("result", a.result.document),
    ("trace", traceJson a.trace), ("created_at", a.createdAt.toJson)]

/-- An evaluation request as JSON. -/
def EvaluationRequest.toJson (r : EvaluationRequest) : Json :=
  .object [("logic", .ofOption Value.document r.logic),
    ("stable_id", .ofOption .string r.stableId), ("version", .ofOption Json.ofNat r.version),
    ("context", r.context.document), ("prefer_latest", .bool r.preferLatest)]

/-- An evaluation response as JSON. -/
def EvaluationResponse.toJson (r : EvaluationResponse) : Json :=
  .object [("stable_id", .ofOption .string r.stableId),
    ("version", .ofOption Json.ofNat r.version), ("result", r.result.document),
    ("trace", traceJson r.trace), ("proof", r.proof.toJson)]

/-- A regression request as JSON. -/
def RegressionRequest.toJson (r : RegressionRequest) : Json :=
  .object [("stable_id", .string r.stableId), ("version", .ofOption Json.ofNat r.version),
    ("prefer_latest", .bool r.preferLatest),
    ("cases", .array (r.cases.map RegressionCase.toJson))]

/-- The outcome of a case as JSON. -/
def CaseOutcome.toJson (c : CaseOutcome) : Json :=
  .object [("name", .string c.name), ("description", .ofOption .string c.description),
    ("success", .bool c.success), ("expected", c.expected.document),
    ("actual", c.actual.document), ("trace", traceJson c.trace)]

/-- A regression report as JSON. -/
def RegressionReport.toJson (r : RegressionReport) : Json :=
  .object [("stable_id", .string r.stableId), ("version", .ofNat r.version),
    ("total", .ofNat r.total), ("passed", .ofNat r.passed), ("failed", .ofNat r.failed),
    ("cases", .array (r.cases.map CaseOutcome.toJson))]

end DecisionRules
