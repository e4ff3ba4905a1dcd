import DecisionRules.Json.Reader
import DecisionRules.Time.Timestamp

/-!
# Record/Shape — the shapes of stored records

Every record that is read or written has a shape: its fields with their names, their own shapes, and
whether they may be missing. A record is an object whose keys are its fields, in any order and with
unknown keys ignored, or an array of its fields in the order of the shape.

`Shape.check` says whether a document has a shape, and if not, which kind of fault comes first in
the order of the text. The same rules go through what had been read of a text that is no JSON
(`Shape.faultAt`), since a fault of shape before the place where the text went wrong comes first.
The value of an unknown key is skipped, which the reader is told by `Shape.policy`.
-/

namespace DecisionRules

/-- Why a text is not a record. -/
inductive ReadError
  /-- The text is not JSON, or stops being what can stand at some place. -/
  | malformed
  /-- The text is JSON of another shape. -/
  | mistyped
  deriving DecidableEq

/-- The records there are. -/
inductive RecordKind
  | traceStep
  | regressionCase
  | ruleVersion
  | ruleDraft
  | ruleSummary
  | ruleListing
  | receipt
  | artifact
  | evaluationRequest
  | evaluationResponse
  | regressionRequest
  | caseOutcome
  | regressionReport
  /-- A draft in a catalog file, with the wish to put it in force. -/
  | catalogEntry
  deriving DecidableEq

/-- What can be read from a document. -/
inductive Shape
  /-- Anything. -/
  | value
  | text
  | truth
  /-- A natural below a bound, written as an integer. -/
  | natural (bound : Nat)
  | timestamp
  | status
  /-- An object whose values are texts. -/
  | labels
  | list (item : Shape)
  | record (kind : RecordKind)
  /-- `null`, which stands for nothing, or what the shape says. -/
  | orNull (s : Shape)
  deriving DecidableEq

namespace Shape

/-- Version numbers have thirty-two bits. -/
def versionNumber : Shape := .natural (Nat.pow 2 32)

/-- Counts have sixty-four bits. -/
def size : Shape := .natural (Nat.pow 2 64)

/-- Whether `null` stands for nothing. -/
def takesNull : Shape → Bool
  | .orNull _ => true
  | _ => false

/-- The shape of what is not nothing. -/
def present : Shape → Shape
  | .orNull s => s.present
  | s => s

end Shape

/-- A field of a record. -/
structure RecordField where
  name : String
  /-- If `null` stands for nothing here, so does a missing key. -/
  shape : Shape
  /-- The key may be missing, and an array of fields may end before this one. -/
  defaulted : Bool := false
  /-- Other names of the field. -/
  aliases : List String := []

namespace RecordField

/-- A field that must be there. -/
def required (name : String) (shape : Shape) : RecordField := { name, shape }

/-- A field that may be missing or `null`; an array of fields must still have it. -/
def nullable (name : String) (shape : Shape) : RecordField := { name, shape := .orNull shape }

/-- A field that may be missing or `null`. -/
def omittable (name : String) (shape : Shape) : RecordField :=
  { name, shape := .orNull shape, defaulted := true }

/-- A field that may be missing but is not `null`. -/
def withDefault (name : String) (shape : Shape) : RecordField := { name, shape, defaulted := true }

/-- Whether a key names the field. -/
def isNamed (f : RecordField) (key : String) : Bool := f.name == key || f.aliases.contains key

/-- Whether the key may be missing. -/
def mayBeMissing (f : RecordField) : Bool := f.shape.takesNull || f.defaulted

end RecordField

namespace RecordKind

open RecordField Shape

/-- The fields of a draft, on its own or in a catalog file. -/
def draftFields : List RecordField :=
  [required "stable_id" .text, required "name" .text, omittable "description" .text,
    required "definition" .value, withDefault "labels" .labels, omittable "revision_notes" .text,
    { withDefault "regression_cases" (.list (.record .regressionCase)) with
      aliases := ["regression_tests"] }]

/-- The fields of a record, in the order in which they are written. -/
def fields : RecordKind → List RecordField
  | .traceStep =>
    [required "path" .text, required "operator" .text, required "result" .value,
      omittable "arguments" .value, withDefault "children" (.list (.record .traceStep))]
  | .regressionCase =>
    [required "name" .text, withDefault "context" .value, required "expected" .value,
      omittable "description" .text]
  | .ruleVersion =>
    [required "stable_id" .text, required "version" versionNumber, required "name" .text,
      nullable "description" .text, required "labels" .labels, required "definition" .value,
      required "status" .status, required "created_at" .timestamp,
      required "updated_at" .timestamp, omittable "published_at" .timestamp,
      nullable "revision_notes" .text,
      required "regression_cases" (.list (.record .regressionCase))]
  | .ruleDraft => draftFields
  | .ruleSummary =>
    [required "stable_id" .text, required "name" .text, nullable "description" .text,
      required "labels" .labels, required "latest_version" versionNumber,
      nullable "published_version" versionNumber, required "status" .status]
  | .ruleListing => [required "total" size, required "rules" (.list (.record .ruleSummary))]
  | .receipt =>
    [required "id" .text, required "created_at" .timestamp, nullable "stable_id" .text,
      nullable "version" versionNumber]
  | .artifact =>
    [required "id" .text, nullable "stable_id" .text, nullable "version" versionNumber,
      required "definition" .value, required "context" .value, required "result" .value,
      required "trace" (.list (.record .traceStep)), required "created_at" .timestamp]
  | .evaluationRequest =>
    [omittable "logic" .value, omittable "stable_id" .text, omittable "version" versionNumber,
      withDefault "context" .value, withDefault "prefer_latest" .truth]
  | .evaluationResponse =>
    [nullable "stable_id" .text, nullable "version" versionNumber, required "result" .value,
      required "trace" (.list (.record .traceStep)), required "proof" (.record .receipt)]
  | .regressionRequest =>
    [required "stable_id" .text, omittable "version" versionNumber,
      withDefault "prefer_latest" .truth,
      withDefault "cases" (.list (.record .regressionCase))]
  | .caseOutcome =>
    [required "name" .text, nullable "description" .text, required "success" .truth,
      required "expected" .value, required "actual" .value,
      required "trace" (.list (.record .traceStep))]
  | .regressionReport =>
    [required "stable_id" .text, required "version" versionNumber, required "total" size,
      required "passed" size, required "failed" size,
      required "cases" (.list (.record .caseOutcome))]
  | .catalogEntry => draftFields ++ [withDefault "publish" .truth]

/-- Whether a record may be an array of its fields. -/
def positional : RecordKind → Bool
  | .catalogEntry => false
  | _ => true

end RecordKind

namespace Shape

/-- The names that a status can have. -/
def statusNames : List String := ["draft", "published"]

/-- Whether a document without parts has a shape; what can be no status is reported as no JSON. -/
def checkScalar (s : Shape) (j : Json) : Except ReadError Unit :=
  match s, j with
  | .value, _ => .ok ()
  | .text, .string _ => .ok ()
  | .truth, .bool _ => .ok ()
  | .natural bound, j => if (j.natBelow? bound).isSome then .ok () else .error .mistyped
  | .timestamp, .string t => if (Timestamp.ofText? t).isSome then .ok () else .error .mistyped
  | .status, .string name => if statusNames.contains name then .ok () else .error .mistyped
  | .status, _ => .error .malformed
  | .orNull _, .null => .ok ()
  | .orNull s, j => checkScalar s j
  | _, _ => .error .mistyped

/-- A status may also be written as an object with its name as the only key and `null` under it. -/
def checkStatusObject : List (String × Json) → Except ReadError Unit
  | [] => .error .malformed
  | (name, j) :: rest =>
    if !statusNames.contains name then .error .mistyped
    else
      match j with
      | .null => if rest.isEmpty then .ok () else .error .malformed
      | _ => .error .mistyped

/-- Whether all values are texts. -/
def checkLabels : List (String × Json) → Except ReadError Unit
  | [] => .ok ()
  | (_, .string _) :: rest => checkLabels rest
  | _ => .error .mistyped

/-- Whether a record may end when only these fields were seen. -/
def checkMissing (fields : List RecordField) (seen : List String) : Except ReadError Unit :=
  if fields.all fun f => seen.contains f.name || f.mayBeMissing then .ok () else .error .mistyped

/-- Whether an array of fields may end before these. -/
def checkRest (fields : List RecordField) : Except ReadError Unit :=
  if fields.all (·.defaulted) then .ok () else .error .mistyped

mutual

/-- Whether a document has a shape; else the first fault. -/
def check : Json → Shape → Except ReadError Unit
  | .array items, s =>
    match s.present with
    | .value => .ok ()
    | .status => .error .malformed
    | .list item => checkItems items item
    | .record kind =>
      if kind.positional then do checkRest (← checkPositions items kind.fields)
      else .error .mistyped
    | _ => .error .mistyped
  | .object entries, s =>
    match s.present with
    | .value => .ok ()
    | .status => checkStatusObject entries
    | .labels => checkLabels entries
    | .record kind => do checkMissing kind.fields (← checkEntries entries kind.fields [])
    | _ => .error .mistyped
  | j, s => checkScalar s j
  termination_by structural j => j

/-- Whether all items have a shape. -/
def checkItems : List Json → Shape → Except ReadError Unit
  | [], _ => .ok ()
  | j :: rest, s => do
    check j s
    checkItems rest s
  termination_by structural items => items

/-- Whether items are the values of fields in order; gives the fields left over. An item too many is
reported as no JSON. -/
def checkPositions : List Json → List RecordField → Except ReadError (List RecordField)
  | [], fields => .ok fields
  | _ :: _, [] => .error .malformed
  | j :: rest, f :: fields => do
    check j f.shape
    checkPositions rest fields
  termination_by structural items => items

/-- Whether entries are fields of a record, none of them repeated; gives the names of the fields
seen. -/
def checkEntries : List (String × Json) → List RecordField → List String →
    Except ReadError (List String)
  | [], _, seen => .ok seen
  | (key, j) :: rest, fields, seen =>
    match fields.find? (·.isNamed key) with
    | none => checkEntries rest fields seen
    | some f =>
      if seen.contains f.name then .error .mistyped
      else do
        check j f.shape
        checkEntries rest fields (f.name :: seen)
  termination_by structural entries => entries

end

/-! ## Skipped values

The value of an unknown key is skipped, and so is everything in it. An entry of a catalog file is
the exception: it is read as a whole before its keys are looked at. -/

/-- Whether the value at the end of these holes, the outermost first, is skipped. -/
def skips : Shape → List Json.Hole → Bool
  | _, [] => false
  | s, .item before :: holes =>
    match s.present with
    | .list item => skips item holes
    | .record kind =>
      match kind.fields[before.length]? with
      | some f => skips f.shape holes
      | none => false
    | _ => false
  | s, .entry _ key :: holes =>
    match s.present with
    | .record .catalogEntry => false
    | .record kind =>
      match kind.fields.find? (·.isNamed key) with
      | some f => skips f.shape holes
      | none => true
    | _ => false

/-- What the reader of a text that should have a shape lets pass. -/
def policy (s : Shape) : Json.Reader.Policy :=
  ⟨Json.nestingLimit, fun holes => s.skips holes.reverse⟩

/-! ## Texts that are no JSON

The holes of a reader that stopped are followed from the outside in. What stands before a hole is
complete and is checked; what is missing is not held against the text. -/

/-- The error of a check that may have found a fault, else that of the text. -/
def orMalformed {α : Type} : Except ReadError α → ReadError
  | .error e => e
  | .ok _ => .malformed

/-- What a document may still be at a hole: nothing that could be at fault, or a shape. The `null`
under the name of a status counts as a truth value, which has no parts either. -/
def enter (s : Shape) : Json.Hole → Except ReadError (Option Shape)
  | .item before =>
    match s.present with
    | .value => .ok none
    | .list item => do
      checkItems before.reverse item
      pure (some item)
    | .record kind =>
      if kind.positional then do
        match ← checkPositions before.reverse kind.fields with
        | [] => .error .malformed
        | f :: _ => pure (some f.shape)
      else .error .mistyped
    | .status => .error .malformed
    | _ => .error .mistyped
  | .entry before key =>
    match s.present with
    | .value => .ok none
    | .labels => do
      checkLabels before.reverse
      pure (some .text)
    | .status =>
      if before.isEmpty then
        if statusNames.contains key then pure (some .truth) else .error .mistyped
      else do
        checkStatusObject before.reverse
        .error .malformed
    | .record kind => do
      let seen ← checkEntries before.reverse kind.fields []
      match kind.fields.find? (·.isNamed key) with
      | none => pure none
      | some f => if seen.contains f.name then .error .mistyped else pure (some f.shape)
    | _ => .error .mistyped

/-- Follows holes from the outside in; `last` judges what is innermost. -/
def descend (last : Shape → ReadError) : Shape → List Json.Hole → ReadError
  | s, [] => last s
  | s, hole :: holes =>
    match s.enter hole with
    | .error e => e
    | .ok none => .malformed
    | .ok (some inner) => descend last inner holes

/-- Whether the latest-first entries of an object that breaks off are at fault. -/
def checkBefore (s : Shape) (entries : List (String × Json)) : Except ReadError Unit :=
  match s.present with
  | .value => .ok ()
  | .labels => checkLabels entries.reverse
  | .status => if entries.isEmpty then .ok () else checkStatusObject entries.reverse
  | .record kind => (checkEntries entries.reverse kind.fields []).map fun _ => ()
  | _ => .error .mistyped

/-- The fault where a value should have had a shape and this token stood. An array or object that is
nested too deep is at fault for that only if the shape has a place for one. -/
def faultOfValue (token : Option Json.Token) (s : Shape) : ReadError :=
  match token with
  | some .openArray => orMalformed (s.enter (.item []))
  | some .openObject => orMalformed (s.checkBefore [])
  | _ => .malformed

/-- The first fault of a text of which a shape was expected, from where its reader stopped. -/
def faultAt (s : Shape) (stop : Json.Reader.Stop) : ReadError :=
  match stop.state with
  | .value holes => descend (faultOfValue stop.token) s holes.reverse
  | .firstItem holes => descend (faultOfValue stop.token) s (.item [] :: holes).reverse
  | .afterItem items holes =>
    descend (fun inner => orMalformed (inner.enter (.item items))) s holes.reverse
  | .firstKey holes => descend (fun inner => orMalformed (inner.checkBefore [])) s holes.reverse
  | .nextKey entries holes | .afterEntry entries holes =>
    descend (fun inner => orMalformed (inner.checkBefore entries)) s holes.reverse
  | .colon entries key holes =>
    descend (fun _ => .malformed) s (.entry entries key :: holes).reverse
  | .finished document => orMalformed (check document s)

/-- Reads a text that should have a shape. -/
def read [Rounding] (s : Shape) (text : String) : Except ReadError Json :=
  match Json.read s.policy text with
  | .error stop => .error (s.faultAt stop)
  | .ok document =>
    match check document s with
    | .error e => .error e
    | .ok () => .ok document

end Shape

end DecisionRules
