import DecisionRules.Engine.Basic

/-!
# Engine/Session — several engines on one journal

A session is any number of engines, each with a catalog of its own, that share a journal and with it
the clock and the names. A run of a session is a list of requests, each to one of the engines.
-/

namespace DecisionRules

/-- Everything an engine can be asked to do. -/
inductive Request
  /-- Create a version whose definition is validated. -/
  | create (d : RuleDraft)
  /-- Create a version whose definition is not validated. -/
  | createUnvalidated (d : RuleDraft)
  | publish (id : String) (version : Nat) (notes : Option String)
  | get (id : String) (version : Option Nat) (preferLatest : Bool)
  | list
  | versions (id : String)
  | replaceCases (id : String) (version : Nat) (cases : List RegressionCase)
  | clearCatalog
  | clearArtifacts
  | hasNoArtifacts
  | evaluate (r : EvaluationRequest)
  | regress (r : RegressionRequest)
  | artifact (id : String)
  | artifactsOf (id : String)

/-- What an engine answers to a request that succeeds. -/
inductive Answer
  | version (v : RuleVersion)
  | versions (vs : List RuleVersion)
  | listing (l : RuleListing)
  | response (r : EvaluationResponse)
  | report (r : RegressionReport)
  | artifact (a : Artifact)
  | artifacts (as : List Artifact)
  | truth (b : Bool)

namespace Engine

/-- Wraps the outcome of an operation as an answer. -/
def answering {α : Type} (wrap : α → Answer) (outcome : Except EngineError α × Engine) :
    Except EngineError Answer × Engine :=
  (outcome.1.map wrap, outcome.2)

/-- Carries out a request. -/
def perform (src : Sources) : Request → Engine → Except EngineError Answer × Engine
  | .create d, e => answering .version (e.create src d)
  | .createUnvalidated d, e => answering .version (e.createUnvalidated src d)
  | .publish id version notes, e => answering .version (e.publish src id version notes)
  | .get id version preferLatest, e =>
    answering .version ((e.catalog.get id version preferLatest).mapError .catalog, e)
  | .list, e => (.ok (.listing e.catalog.listing), e)
  | .versions id, e => answering .versions ((e.catalog.versions id).mapError .catalog, e)
  | .replaceCases id version cases, e =>
    answering .version (e.replaceCases src id version cases)
  | .clearCatalog, e => (.ok (.truth true), { e with catalog := Catalog.empty })
  | .clearArtifacts, e => (.ok (.truth true), { e with journal := e.journal.clear })
  | .hasNoArtifacts, e => (.ok (.truth e.journal.store.isEmpty), e)
  | .evaluate r, e => answering .response (e.evaluate src r)
  | .regress r, e => answering .report (e.regress src r)
  | .artifact id, e => answering .artifact (e.artifact id, e)
  | .artifactsOf id, e => (.ok (.artifacts (e.journal.store.ofRule id)), e)

end Engine

/-- Engines named by `ι` that share a journal. -/
structure Session (ι : Type) where
  catalogs : ι → Catalog
  journal : Journal

namespace Session

variable {ι : Type}

/-- The session before anything happened. -/
def empty : Session ι := ⟨fun _ => Catalog.empty, Journal.empty⟩

/-- One of the engines. -/
def engine (s : Session ι) (who : ι) : Engine := ⟨s.catalogs who, s.journal⟩

variable [DecidableEq ι]

/-- The session after one of its engines has become `e`. -/
def withEngine (s : Session ι) (who : ι) (e : Engine) : Session ι :=
  ⟨fun i => if i = who then e.catalog else s.catalogs i, e.journal⟩

/-- Has one of the engines carry out a request. -/
def perform (src : Sources) (who : ι) (r : Request) (s : Session ι) :
    Except EngineError Answer × Session ι :=
  let (answer, e) := (s.engine who).perform src r
  (answer, s.withEngine who e)

/-- Carries out requests one after the other; gives all answers. -/
def run (src : Sources) : List (ι × Request) → Session ι →
    List (Except EngineError Answer) × Session ι
  | [], s => ([], s)
  | (who, r) :: rest, s =>
    let (answer, s) := s.perform src who r
    let (answers, s) := run src rest s
    (answer :: answers, s)

end Session

end DecisionRules
