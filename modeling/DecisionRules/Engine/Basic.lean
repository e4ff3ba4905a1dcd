import DecisionRules.Catalog.InPlace
import DecisionRules.Engine.Request
import DecisionRules.Rule.Evaluate
import DecisionRules.Rule.Validate

/-!
# Engine/Basic — a catalog and a journal at work

An engine evaluates rules of its catalog, or expressions given in place, and records every
evaluation that succeeds in its journal. Time and names come from outside, as two sequences of which
the journal knows how much is used up: the n-th reading of the clock and the n-th name.

Every operation gives the engine afterwards, whether it succeeds or not. A failure leaves the
catalog as it was; it may have used up a reading of the clock, and a regression run that breaks off
has recorded the cases before.
-/

namespace DecisionRules

/-- Where times and names come from. -/
structure Sources where
  /-- What the clock shows when it is read for the n-th time, from zero. -/
  time : Nat → Timestamp
  /-- The n-th name of an artifact, from zero. -/
  name : Nat → String

/-- The artifacts recorded, and how far the sources are used up. -/
structure Journal where
  store : ArtifactStore
  /-- How often the clock was read. -/
  readings : Nat
  /-- How many names were given out. -/
  issued : Nat

namespace Journal

/-- The journal before anything happened. -/
def empty : Journal := ⟨ArtifactStore.empty, 0, 0⟩

/-- Reads the clock. -/
def readClock (src : Sources) (j : Journal) : Timestamp × Journal :=
  (src.time j.readings, { j with readings := j.readings + 1 })

/-- Records an evaluation under a new name and at the current time. -/
def record (src : Sources) (stableId : Option String) (version : Option Nat)
    (definition context : Value) (e : Evaluation) (j : Journal) : Artifact × Journal :=
  let (now, j) := j.readClock src
  let artifact : Artifact :=
    ⟨src.name j.issued, stableId, version, definition, context, e.result, e.trace, now⟩
  (artifact, { j with store := j.store.record artifact, issued := j.issued + 1 })

/-- Drops all artifacts; what was used up of the sources stays used up. -/
def clear (j : Journal) : Journal := { j with store := j.store.clear }

/-- How a case went, given the evaluation. -/
def caseOutcome (c : RegressionCase) (e : Evaluation) : CaseOutcome :=
  ⟨c.name, c.description, e.result == c.expected, c.expected, e.result, e.trace⟩

/-- Evaluates a version in the context of each case and records it, up to the first evaluation that
fails. -/
def runCases (src : Sources) (rule : RuleVersion) :
    List RegressionCase → Journal → Except EvalError (List CaseOutcome) × Journal
  | [], j => (.ok [], j)
  | c :: rest, j =>
    match evaluate rule.definition c.context with
    | .error e => (.error e, j)
    | .ok evaluation =>
      let (_, j) := j.record src (some rule.stableId) (some rule.version) rule.definition c.context
        evaluation
      let (outcomes, j) := runCases src rule rest j
      (outcomes.map (caseOutcome c evaluation :: ·), j)

end Journal

/-- A catalog with a journal. -/
structure Engine where
  catalog : Catalog
  journal : Journal

namespace Engine

/-- The engine before anything happened. -/
def empty : Engine := ⟨Catalog.empty, Journal.empty⟩

/-! ## Changing the catalog -/

/-- Has work done on the catalog; the catalog is then as the work leaves it, failed or not. -/
def onCatalog (work : Catalog.Work RuleVersion) (e : Engine) :
    Except EngineError RuleVersion × Engine :=
  let (outcome, c) := work.carryOut e.catalog
  (outcome.mapError .catalog, { e with catalog := c })

/-- Appends a version after checking the form of the draft. The clock is read only if the draft is
in order. -/
def createUnvalidated (src : Sources) (d : RuleDraft) (e : Engine) :
    Except EngineError RuleVersion × Engine :=
  match d.check with
  | .error fault => (.error (.catalog (.invalidRule fault)), e)
  | .ok () =>
    let (now, j) := e.journal.readClock src
    let e := { e with journal := j }
    e.onCatalog (.append d now)

/-- Appends a version after checking the form of the draft and that its definition is
well-built. -/
def create (src : Sources) (d : RuleDraft) (e : Engine) : Except EngineError RuleVersion × Engine :=
  match d.check with
  | .error fault => (.error (.catalog (.invalidRule fault)), e)
  | .ok () =>
    match validate d.definition with
    | .error err => (.error (.eval err), e)
    | .ok () => e.createUnvalidated src d

/-- Puts a version in force. The clock is read first. -/
def publish (src : Sources) (id : String) (number : Nat) (notes : Option String) (e : Engine) :
    Except EngineError RuleVersion × Engine :=
  let (now, j) := e.journal.readClock src
  let e := { e with journal := j }
  e.onCatalog (.publish id number notes now)

/-- Gives a version other regression cases. The clock is read once the cases are in order. -/
def replaceCases (src : Sources) (id : String) (number : Nat) (cases : List RegressionCase)
    (e : Engine) : Except EngineError RuleVersion × Engine :=
  match Catalog.checkReplacement cases with
  | .error err => (.error (.catalog err), e)
  | .ok () =>
    let (now, j) := e.journal.readClock src
    let e := { e with journal := j }
    e.onCatalog (.replaceCases id number cases now)

/-! ## Evaluating -/

/-- What a request wants evaluated: the expression, and the rule to record it under. -/
def target (c : Catalog) (r : EvaluationRequest) :
    Except EngineError (Value × Option String × Option Nat) :=
  match r.logic, r.stableId with
  | some logic, id => .ok (logic, id, r.version)
  | none, some id =>
    match c.get id r.version r.preferLatest with
    | .ok rule => .ok (rule.definition, some rule.stableId, some rule.version)
    | .error err => .error (.catalog err)
  | none, none => .error .missingTarget

/-- Evaluates what a request names and records the outcome; nothing is recorded of a failure. -/
def evaluate (src : Sources) (r : EvaluationRequest) (e : Engine) :
    Except EngineError EvaluationResponse × Engine :=
  match target e.catalog r with
  | .error err => (.error err, e)
  | .ok (definition, stableId, version) =>
    match DecisionRules.evaluate definition r.context with
    | .error err => (.error (.eval err), e)
    | .ok evaluation =>
      let (artifact, j) := e.journal.record src stableId version definition r.context evaluation
      (.ok ⟨stableId, version, evaluation.result, evaluation.trace, artifact.receipt⟩,
        { e with journal := j })

/-- The report on a version from how its cases went. -/
def report (rule : RuleVersion) (outcomes : List CaseOutcome) : RegressionReport :=
  let passed := outcomes.countP (·.success)
  ⟨rule.stableId, rule.version, outcomes.length, passed, outcomes.length - passed, outcomes⟩

/-- Tests a version of a rule against the cases of the request, or against its own if there are
none. A case that goes wrong does not end the run, an evaluation that fails does. -/
def regress (src : Sources) (r : RegressionRequest) (e : Engine) :
    Except EngineError RegressionReport × Engine :=
  match e.catalog.get r.stableId r.version r.preferLatest with
  | .error err => (.error (.catalog err), e)
  | .ok rule =>
    let cases := if r.cases.isEmpty then rule.regressionCases else r.cases
    if cases.isEmpty then (.error (.noRegressionCases rule.stableId rule.version), e)
    else
      let (outcomes, j) := e.journal.runCases src rule cases
      let e := { e with journal := j }
      match outcomes with
      | .ok outcomes => (.ok (report rule outcomes), e)
      | .error err => (.error (.eval err), e)

/-- The artifact with an id. -/
def artifact (id : String) (e : Engine) : Except EngineError Artifact :=
  match e.journal.store.get? id with
  | some a => .ok a
  | none => .error (.artifactNotFound id)

end Engine

end DecisionRules
