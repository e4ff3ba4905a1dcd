import DecisionRules.Engine.Request
import DecisionRules.Record.Shape
import DecisionRules.Value.Document

/-!
# Record/Read — records from JSON

Once a document has the shape of a record, its fields are looked up by name, whatever order and form
they came in. `ofJson?` does that for each record; on a document without the shape it may give
`none`. `readText` puts the two together: shape first, then fields.
-/

namespace DecisionRules

/-! ## Fields -/

/-- The fields of a record under their proper names, whether it was written as an object or as an
array. -/
def fieldsOf (kind : RecordKind) : Json → List (String × Json)
  | .object entries => entries.filterMap fun (key, j) =>
    (kind.fields.find? (·.isNamed key)).map fun f => (f.name, j)
  | .array items => (kind.fields.map (·.name)).zip items
  | _ => []

namespace Fields

variable {α : Type}

/-- A field that must be there. -/
def required (fields : List (String × Json)) (name : String) (read : Json → Option α) : Option α :=
  (fields.lookup name).bind read

/-- A field that may be absent or `null`. -/
def optional (fields : List (String × Json)) (name : String) (read : Json → Option α) :
    Option (Option α) :=
  match fields.lookup name with
  | none => some none
  | some .null => some none
  | some j => (read j).map some

/-- A field that may be absent. -/
def withDefault (fields : List (String × Json)) (name : String) (default : α)
    (read : Json → Option α) : Option α :=
  match fields.lookup name with
  | none => some default
  | some j => read j

end Fields

/-- Any document as a value. -/
def Value.ofJson? (j : Json) : Option Value := some (Value.ofJson j)

/-- A natural. -/
def natOfJson? (j : Json) : Option Nat := j.natBelow? (Nat.pow 2 64)

/-- A moment. -/
def Timestamp.ofJson? (j : Json) : Option Timestamp := j.string?.bind Timestamp.ofText?

/-- A status, as its name or as an object with its name as the key. -/
def RuleStatus.ofJson? : Json → Option RuleStatus
  | .string name => RuleStatus.ofName? name
  | .object [(name, _)] => RuleStatus.ofName? name
  | _ => none

/-- Labels, the last of equal names staying. -/
def labelsOfJson? (j : Json) : Option (KeyMap String) := do
  let entries ← j.entries?
  let labels ← entries.mapM fun (name, j) => j.string?.map fun text => (name, text)
  pure (KeyMap.ofList labels)

/-- A list of records. -/
def listOfJson? {α : Type} (read : Json → Option α) (j : Json) : Option (List α) :=
  j.items?.bind fun items => items.mapM read

/-! ## Records -/

namespace TraceStep

/-- A step whose children have been read. -/
def assemble? (fields : List (String × Json)) (children : List TraceStep) : Option TraceStep := do
  let path ← Fields.required fields "path" Json.string?
  let operator ← Fields.required fields "operator" Json.string?
  let result ← Fields.required fields "result" Value.ofJson?
  let arguments ← Fields.optional fields "arguments" Value.ofJson?
  pure { path, operator, result, arguments, children }

mutual

/-- A step of a trace. -/
def ofJson? : Json → Option TraceStep
  | .object entries => do
    let children ← childrenIn? entries
    assemble? (fieldsOf .traceStep (.object entries)) children
  | .array items => do
    let children ← childrenAt? 4 items
    assemble? (fieldsOf .traceStep (.array items)) children
  | _ => none
  termination_by structural j => j

/-- The steps under the key for children, none if the key is missing. -/
def childrenIn? : List (String × Json) → Option (List TraceStep)
  | [] => some []
  | (key, j) :: rest => if key = "children" then forest? j else childrenIn? rest
  termination_by structural entries => entries

/-- The steps that the item at a position holds, none if there is no such item. -/
def childrenAt? : Nat → List Json → Option (List TraceStep)
  | _, [] => some []
  | 0, j :: _ => forest? j
  | n + 1, _ :: rest => childrenAt? n rest
  termination_by structural _ items => items

/-- The steps that a document holds. -/
def forest? : Json → Option (List TraceStep)
  | .array items => forestOf? items
  | _ => none
  termination_by structural j => j

/-- The steps that items are. -/
def forestOf? : List Json → Option (List TraceStep)
  | [] => some []
  | j :: rest => do
    let s ← ofJson? j
    let more ← forestOf? rest
    pure (s :: more)
  termination_by structural items => items

end

end TraceStep

/-- A regression case; without a context, in the empty one. -/
def RegressionCase.ofJson? (j : Json) : Option RegressionCase := do
  let fields := fieldsOf .regressionCase j
  let name ← Fields.required fields "name" Json.string?
  let context ← Fields.withDefault fields "context" Value.emptyObject Value.ofJson?
  let expected ← Fields.required fields "expected" Value.ofJson?
  let description ← Fields.optional fields "description" Json.string?
  pure { name, context, expected, description }

/-- A version. -/
def RuleVersion.ofJson? (j : Json) : Option RuleVersion := do
  let fields := fieldsOf .ruleVersion j
  let stableId ← Fields.required fields "stable_id" Json.string?
  let version ← Fields.required fields "version" natOfJson?
  let name ← Fields.required fields "name" Json.string?
  let description ← Fields.optional fields "description" Json.string?
  let labels ← Fields.required fields "labels" labelsOfJson?
  let definition ← Fields.required fields "definition" Value.ofJson?
  let status ← Fields.required fields "status" RuleStatus.ofJson?
  let createdAt ← Fields.required fields "created_at" Timestamp.ofJson?
  let updatedAt ← Fields.required fields "updated_at" Timestamp.ofJson?
  let publishedAt ← Fields.optional fields "published_at" Timestamp.ofJson?
  let revisionNotes ← Fields.optional fields "revision_notes" Json.string?
  let regressionCases ←
    Fields.required fields "regression_cases" (listOfJson? RegressionCase.ofJson?)
  pure { stableId, version, name, description, labels, definition, status, createdAt, updatedAt,
         publishedAt, revisionNotes, regressionCases }

/-- A draft from the fields of a record that has those of one. -/
def RuleDraft.ofFields? (fields : List (String × Json)) : Option RuleDraft := do
  let stableId ← Fields.required fields "stable_id" Json.string?
  let name ← Fields.required fields "name" Json.string?
  let description ← Fields.optional fields "description" Json.string?
  let definition ← Fields.required fields "definition" Value.ofJson?
  let labels ← Fields.withDefault fields "labels" KeyMap.empty labelsOfJson?
  let revisionNotes ← Fields.optional fields "revision_notes" Json.string?
  let regressionCases ←
    Fields.withDefault fields "regression_cases" [] (listOfJson? RegressionCase.ofJson?)
  pure { stableId, name, description, definition, labels, revisionNotes, regressionCases }

/-- A draft. -/
def RuleDraft.ofJson? (j : Json) : Option RuleDraft := RuleDraft.ofFields? (fieldsOf .ruleDraft j)

/-- A summary. -/
def RuleSummary.ofJson? (j : Json) : Option RuleSummary := do
  let fields := fieldsOf .ruleSummary j
  let stableId ← Fields.required fields "stable_id" Json.string?
  let name ← Fields.required fields "name" Json.string?
  let description ← Fields.optional fields "description" Json.string?
  let labels ← Fields.required fields "labels" labelsOfJson?
  let latestVersion ← Fields.required fields "latest_version" natOfJson?
  let publishedVersion ← Fields.optional fields "published_version" natOfJson?
  let status ← Fields.required fields "status" RuleStatus.ofJson?
  pure { stableId, name, description, labels, latestVersion, publishedVersion, status }

/-- A listing. -/
def RuleListing.ofJson? (j : Json) : Option RuleListing := do
  let fields := fieldsOf .ruleListing j
  let total ← Fields.required fields "total" natOfJson?
  let rules ← Fields.required fields "rules" (listOfJson? RuleSummary.ofJson?)
  pure { total, rules }

/-- A receipt. -/
def Receipt.ofJson? (j : Json) : Option Receipt := do
  let fields := fieldsOf .receipt j
  let id ← Fields.required fields "id" Json.string?
  let createdAt ← Fields.required fields "created_at" Timestamp.ofJson?
  let stableId ← Fields.optional fields "stable_id" Json.string?
  let version ← Fields.optional fields "version" natOfJson?
  pure { id, createdAt, stableId, version }

/-- An artifact. -/
def Artifact.ofJson? (j : Json) : Option Artifact := do
  let fields := fieldsOf .artifact j
  let id ← Fields.required fields "id" Json.string?
  let stableId ← Fields.optional fields "stable_id" Json.string?
  let version ← Fields.optional fields "version" natOfJson?
  let definition ← Fields.required fields "definition" Value.ofJson?
  let context ← Fields.required fields "context" Value.ofJson?
  let result ← Fields.required fields "result" Value.ofJson?
  let trace ← Fields.required fields "trace" TraceStep.forest?
  let createdAt ← Fields.required fields "created_at" Timestamp.ofJson?
  pure { id, stableId, version, definition, context, result, trace, createdAt }

/-- An evaluation request; without a context, in the empty one. -/
def EvaluationRequest.ofJson? (j : Json) : Option EvaluationRequest := do
  let fields := fieldsOf .evaluationRequest j
  let logic ← Fields.optional fields "logic" Value.ofJson?
  let stableId ← Fields.optional fields "stable_id" Json.string?
  let version ← Fields.optional fields "version" natOfJson?
  let context ← Fields.withDefault fields "context" Value.emptyObject Value.ofJson?
  let preferLatest ← Fields.withDefault fields "prefer_latest" false Json.bool?
  pure { logic, stableId, version, context, preferLatest }

/-- An evaluation response. -/
def EvaluationResponse.ofJson? (j : Json) : Option EvaluationResponse := do
  let fields := fieldsOf .evaluationResponse j
  let stableId ← Fields.optional fields "stable_id" Json.string?
  let version ← Fields.optional fields "version" natOfJson?
  let result ← Fields.required fields "result" Value.ofJson?
  let trace ← Fields.required fields "trace" TraceStep.forest?
  let proof ← Fields.required fields "proof" Receipt.ofJson?
  pure { stableId, version, result, trace, proof }

/-- A regression request. -/
def RegressionRequest.ofJson? (j : Json) : Option RegressionRequest := do
  let fields := fieldsOf .regressionRequest j
  let stableId ← Fields.required fields "stable_id" Json.string?
  let version ← Fields.optional fields "version" natOfJson?
  let preferLatest ← Fields.withDefault fields "prefer_latest" false Json.bool?
  let cases ← Fields.withDefault fields "cases" [] (listOfJson? RegressionCase.ofJson?)
  pure { stableId, version, preferLatest, cases }

/-- The outcome of a case. -/
def CaseOutcome.ofJson? (j : Json) : Option CaseOutcome := do
  let fields := fieldsOf .caseOutcome j
  let name ← Fields.required fields "name" Json.string?
  let description ← Fields.optional fields "description" Json.string?
  let success ← Fields.required fields "success" Json.bool?
  let expected ← Fields.required fields "expected" Value.ofJson?
  let actual ← Fields.required fields "actual" Value.ofJson?
  let trace ← Fields.required fields "trace" TraceStep.forest?
  pure { name, description, success, expected, actual, trace }

/-- A regression report. -/
def RegressionReport.ofJson? (j : Json) : Option RegressionReport := do
  let fields := fieldsOf .regressionReport j
  let stableId ← Fields.required fields "stable_id" Json.string?
  let version ← Fields.required fields "version" natOfJson?
  let total ← Fields.required fields "total" natOfJson?
  let passed ← Fields.required fields "passed" natOfJson?
  let failed ← Fields.required fields "failed" natOfJson?
  let cases ← Fields.required fields "cases" (listOfJson? CaseOutcome.ofJson?)
  pure { stableId, version, total, passed, failed, cases }

/-- An entry of a catalog file: a draft, and whether to put it in force. -/
structure CatalogEntry where
  draft : RuleDraft
  publish : Bool

/-- An entry of a catalog file. -/
def CatalogEntry.ofJson? (j : Json) : Option CatalogEntry := do
  let fields := fieldsOf .catalogEntry j
  let draft ← RuleDraft.ofFields? fields
  let publish ← Fields.withDefault fields "publish" false Json.bool?
  pure { draft, publish }

/-! ## Texts -/

/-- Reads what a text of some shape holds. -/
def readText [Rounding] {α : Type} (s : Shape) (ofJson? : Json → Option α) (text : String) :
    Except ReadError α :=
  match s.read text with
  | .error e => .error e
  | .ok document =>
    match ofJson? document with
    | some a => .ok a
    | none => .error .mistyped

/-- Reads a value. -/
def readValue [Rounding] (text : String) : Except ReadError Value :=
  readText .value Value.ofJson? text

end DecisionRules
