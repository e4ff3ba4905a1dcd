import DecisionRules.Engine.Session
import DecisionRules.Proofs.Catalog.InPlace
import Mathlib.Data.List.Forall2

/-!
# Proofs/Engine/Step — what a request can do to an engine

An engine has two parts, and a request does one of few things to each.  The catalog gets a version
appended, has one version changed, or is emptied (`Catalog.Effect`); the store of artifacts grows at
its end or is emptied (`Engine.artifacts_perform`).  Whatever holds at the start and survives one
request holds after every run of a session (`Session.run_invariant`).
-/

namespace DecisionRules

/-! ## One record

An artifact is the record of an evaluation when evaluating what it holds gives what it holds. -/

/-- Which evaluation an artifact is the record of, and under which rule. -/
structure Artifact.Records (a : Artifact) (stableId : Option String) (version : Option Nat)
    (definition context : Value) : Prop where
  stableId_eq : a.stableId = stableId
  version_eq : a.version = version
  definition_eq : a.definition = definition
  context_eq : a.context = context
  replays : evaluate definition context = .ok ⟨a.result, a.trace⟩

/-- Evaluating again what an artifact was recorded of gives the same again. -/
def Artifact.Replays (a : Artifact) : Prop :=
  evaluate a.definition a.context = .ok ⟨a.result, a.trace⟩

theorem Artifact.Records.again {a : Artifact} {stableId : Option String} {version : Option Nat}
    {definition context : Value} (h : a.Records stableId version definition context) :
    a.Replays := by
  rw [Artifact.Replays, h.definition_eq, h.context_eq]
  exact h.replays

namespace ArtifactStore

/-- The store after artifacts have been recorded one after the other. -/
def recordAll (s : ArtifactStore) (made : List Artifact) : ArtifactStore := made.foldl record s

/-- They stand behind those that were there. -/
@[simp] theorem artifacts_recordAll (s : ArtifactStore) (made : List Artifact) :
    (s.recordAll made).artifacts = s.artifacts ++ made := by
  induction made generalizing s with
  | nil => exact (List.append_nil _).symm
  | cons a rest ih =>
    have hrest : (s.recordAll (a :: rest)).artifacts = s.artifacts ++ [a] ++ rest := ih (s.record a)
    rw [hrest, List.append_assoc, List.singleton_append]

end ArtifactStore

namespace Journal

variable {src : Sources}

@[simp] theorem readClock_store (src : Sources) (j : Journal) :
    (j.readClock src).2.store = j.store := rfl

/-- Recording adds the new artifact at the end. -/
@[simp] theorem record_store (src : Sources) (stableId : Option String) (version : Option Nat)
    (definition context : Value) (e : Evaluation) (j : Journal) :
    (j.record src stableId version definition context e).2.store.artifacts =
      j.store.artifacts ++ [(j.record src stableId version definition context e).1] := rfl

/-- **What is recorded of an evaluation is a record of it.** -/
theorem records_record {definition context : Value} {e : Evaluation}
    (h : evaluate definition context = .ok e) (stableId : Option String) (version : Option Nat)
    (j : Journal) :
    (j.record src stableId version definition context e).1.Records stableId version definition
      context :=
  ⟨rfl, rfl, rfl, rfl, h⟩

/-- **Running cases records those before the first failure** — each once, in order, whether or not
the run breaks off. -/
theorem runCases_store (src : Sources) (rule : RuleVersion) :
    ∀ (cases : List RegressionCase) (j : Journal), ∃ made,
      (j.runCases src rule cases).2.store = j.store.recordAll made ∧
      List.Forall₂ (fun a c => a.Records (some rule.stableId) (some rule.version) rule.definition
        c.context) made (cases.takeWhile fun c => (evaluate rule.definition c.context).isOk)
  | [], j => ⟨[], rfl, .nil⟩
  | c :: rest, j => by
    rcases hc : evaluate rule.definition c.context with err | evaluation
    · refine ⟨[], ?_, ?_⟩
      · rw [runCases, hc]
        rfl
      · rw [List.takeWhile_cons_of_neg (by rw [hc]; exact Bool.false_ne_true)]
        exact .nil
    · obtain ⟨made, hmade, hrecords⟩ := runCases_store src rule rest
        (j.record src (some rule.stableId) (some rule.version) rule.definition c.context
          evaluation).2
      refine ⟨(j.record src (some rule.stableId) (some rule.version) rule.definition c.context
        evaluation).1 :: made, ?_, ?_⟩
      · rw [runCases, hc]
        exact hmade
      · rw [List.takeWhile_cons_of_pos (by rw [hc]; rfl)]
        exact .cons (records_record hc _ _ j) hrecords

end Journal

/-! ## The catalog

Five requests are meant to change it.  Each of them reads the clock at most once, so what it does
depends on the catalog before and on one time. -/

/-- Whether a request is meant to change the catalog. -/
def Request.changesCatalog : Request → Bool
  | .create _ | .createUnvalidated _ | .publish .. | .replaceCases .. | .clearCatalog => true
  | _ => false

/-- **What a request does to a catalog at a time**, seen together with its answer. -/
inductive Catalog.Effect (now : Timestamp) :
    Request → Except EngineError Answer → Catalog → Catalog → Prop
  /-- A draft in order becomes the next version. -/
  | appended {r : Request} {d : RuleDraft} {c : Catalog}
      (asked : r = .create d ∧ validate d.definition = .ok () ∨ r = .createUnvalidated d)
      (inOrder : d.check = .ok ()) :
      Effect now r (.ok (.version (c.append d now).1)) c (c.append d now).2
  | published {id : String} {number : Nat} {notes : Option String} {v : RuleVersion}
      {c c' : Catalog} (h : c.publish id number notes now = .ok (v, c')) :
      Effect now (.publish id number notes) (.ok (.version v)) c c'
  | replaced {id : String} {number : Nat} {cases : List RegressionCase} {v : RuleVersion}
      {c c' : Catalog} (inOrder : Catalog.checkReplacement cases = .ok ())
      (h : c.replaceCases id number cases now = .ok (v, c')) :
      Effect now (.replaceCases id number cases) (.ok (.version v)) c c'
  | cleared {c : Catalog} : Effect now .clearCatalog (.ok (.truth true)) c Catalog.empty
  /-- A failure leaves the catalog as it was. -/
  | failed {r : Request} {err : EngineError} {c : Catalog} : Effect now r (.error err) c c
  /-- So does a request that is not meant to change it. -/
  | kept {r : Request} {answer : Except EngineError Answer} {c : Catalog}
      (h : r.changesCatalog = false) : Effect now r answer c c

namespace Engine

variable {src : Sources}

/-- The engine after a change of its catalog that is made as a whole or not at all. -/
def settle (e : Engine) : Except CatalogError (RuleVersion × Catalog) →
    Except EngineError RuleVersion × Engine
  | .ok (v, c) => (.ok v, { e with catalog := c })
  | .error err => (.error (.catalog err), e)

/-- Carrying over the outcome of a change carries over its catalog. -/
theorem settle_cases (e : Engine) (outcome : Except CatalogError (RuleVersion × Catalog)) :
    (∃ v c, outcome = .ok (v, c) ∧ e.settle outcome = (.ok v, { e with catalog := c })) ∨
      ∃ err, outcome = .error err ∧ e.settle outcome = (.error (.catalog err), e) := by
  rcases outcome with err | ⟨v, c⟩
  · exact .inr ⟨err, rfl, rfl⟩
  · exact .inl ⟨v, c, rfl, rfl⟩

/-- Work on the catalog that is all or nothing is settled by what it comes to. -/
theorem onCatalog_eq_settle {work : Catalog.Work RuleVersion} {e : Engine}
    {outcome : Except CatalogError (RuleVersion × Catalog)}
    (h : work.carryOut e.catalog = Catalog.allOrNothing e.catalog outcome) :
    e.onCatalog work = e.settle outcome := by
  rw [onCatalog, h]
  rcases outcome with err | ⟨v, c⟩
  · rfl
  · rfl

/-- A draft in order becomes the next version. -/
theorem createUnvalidated_of_check (src : Sources) {d : RuleDraft} (h : d.check = .ok ())
    (e : Engine) : e.createUnvalidated src d =
      (.ok (e.catalog.append d (src.time e.journal.readings)).1,
        ⟨(e.catalog.append d (src.time e.journal.readings)).2, (e.journal.readClock src).2⟩) := by
  rw [createUnvalidated, h]
  dsimp only [onCatalog]
  rw [Catalog.Work.carryOut_append]
  rfl

theorem createUnvalidated_cases (src : Sources) (d : RuleDraft) (e : Engine) :
    (∃ err, e.createUnvalidated src d = (.error err, e)) ∨
      d.check = .ok () ∧ e.createUnvalidated src d =
        (.ok (e.catalog.append d (src.time e.journal.readings)).1,
          ⟨(e.catalog.append d (src.time e.journal.readings)).2,
            (e.journal.readClock src).2⟩) := by
  rcases hcheck : d.check with fault | ⟨⟩
  · exact .inl ⟨_, by rw [createUnvalidated, hcheck]⟩
  · exact .inr ⟨rfl, createUnvalidated_of_check src hcheck e⟩

theorem create_cases (src : Sources) (d : RuleDraft) (e : Engine) :
    (∃ err, e.create src d = (.error err, e)) ∨
      d.check = .ok () ∧ validate d.definition = .ok () ∧
        e.create src d = e.createUnvalidated src d := by
  rw [create]
  rcases d.check with fault | ⟨⟩
  · exact .inl ⟨_, rfl⟩
  · rcases validate d.definition with err | ⟨⟩
    · exact .inl ⟨_, rfl⟩
    · exact .inr ⟨rfl, rfl, rfl⟩

theorem publish_eq (src : Sources) (id : String) (number : Nat) (notes : Option String)
    (e : Engine) : e.publish src id number notes =
      settle ⟨e.catalog, (e.journal.readClock src).2⟩
        (e.catalog.publish id number notes (src.time e.journal.readings)) :=
  onCatalog_eq_settle (Catalog.Work.carryOut_publish ..)

theorem replaceCases_cases (src : Sources) (id : String) (number : Nat)
    (cases : List RegressionCase) (e : Engine) :
    (∃ err, e.replaceCases src id number cases = (.error err, e)) ∨
      Catalog.checkReplacement cases = .ok () ∧ e.replaceCases src id number cases =
        settle ⟨e.catalog, (e.journal.readClock src).2⟩
          (e.catalog.replaceCases id number cases (src.time e.journal.readings)) := by
  rw [replaceCases]
  rcases Catalog.checkReplacement cases with err | ⟨⟩
  · exact .inl ⟨_, rfl⟩
  · exact .inr ⟨rfl, onCatalog_eq_settle (Catalog.Work.carryOut_replaceCases ..)⟩

/-- An evaluation that fails leaves the engine as it was. -/
theorem evaluate_of_error {r : EvaluationRequest} {e : Engine} {definition : Value}
    {stableId : Option String} {version : Option Nat} {err : EvalError}
    (htarget : target e.catalog r = .ok (definition, stableId, version))
    (heval : DecisionRules.evaluate definition r.context = .error err) :
    e.evaluate src r = (.error (.eval err), e) := by
  rw [evaluate, htarget]
  simp only [heval]

/-- One that succeeds is recorded. -/
theorem evaluate_of_ok {r : EvaluationRequest} {e : Engine} {definition : Value}
    {stableId : Option String} {version : Option Nat} {evaluation : Evaluation}
    (htarget : target e.catalog r = .ok (definition, stableId, version))
    (heval : DecisionRules.evaluate definition r.context = .ok evaluation) :
    e.evaluate src r =
      (.ok ⟨stableId, version, evaluation.result, evaluation.trace,
        (e.journal.record src stableId version definition r.context evaluation).1.receipt⟩,
      ⟨e.catalog,
        (e.journal.record src stableId version definition r.context evaluation).2⟩) := by
  rw [evaluate, htarget]
  simp only [heval]

/-- **An evaluation either fails and leaves the engine as it was, or is recorded.** -/
theorem evaluate_cases (src : Sources) (r : EvaluationRequest) (e : Engine) :
    (∃ err, e.evaluate src r = (.error err, e)) ∨
      ∃ definition stableId version evaluation,
        target e.catalog r = .ok (definition, stableId, version) ∧
        DecisionRules.evaluate definition r.context = .ok evaluation ∧
        e.evaluate src r =
          (.ok ⟨stableId, version, evaluation.result, evaluation.trace,
            (e.journal.record src stableId version definition r.context evaluation).1.receipt⟩,
          ⟨e.catalog,
            (e.journal.record src stableId version definition r.context evaluation).2⟩) := by
  rcases htarget : target e.catalog r with err | ⟨definition, stableId, version⟩
  · exact .inl ⟨err, by rw [evaluate, htarget]⟩
  · rcases heval : DecisionRules.evaluate definition r.context with err | evaluation
    · exact .inl ⟨.eval err, evaluate_of_error htarget heval⟩
    · exact .inr
        ⟨definition, stableId, version, evaluation, rfl, heval, evaluate_of_ok htarget heval⟩

end Engine

/-- The cases a regression run uses: those of the request, else those of the version. -/
def RegressionRequest.chosen (r : RegressionRequest) (rule : RuleVersion) : List RegressionCase :=
  if r.cases.isEmpty then rule.regressionCases else r.cases

namespace Engine

variable {src : Sources}

/-- A regression run that finds its version runs the cases chosen for it, if there are any. -/
theorem regress_eq {r : RegressionRequest} {e : Engine} {rule : RuleVersion}
    (hget : e.catalog.get r.stableId r.version r.preferLatest = .ok rule) :
    e.regress src r =
      if (r.chosen rule).isEmpty then (.error (.noRegressionCases rule.stableId rule.version), e)
      else (((e.journal.runCases src rule (r.chosen rule)).1.map (report rule)).mapError .eval,
        ⟨e.catalog, (e.journal.runCases src rule (r.chosen rule)).2⟩) := by
  have hchosen :
      (if r.cases.isEmpty then rule.regressionCases else r.cases) = r.chosen rule := rfl
  rw [regress, hget]
  dsimp only
  rw [hchosen]
  by_cases hempty : (r.chosen rule).isEmpty = true
  · rw [if_pos hempty, if_pos hempty]
  · rw [if_neg hempty, if_neg hempty]
    rcases (e.journal.runCases src rule (r.chosen rule)).1 with err | outcomes
    · rfl
    · rfl

/-- **A regression run either does not start, or runs the cases chosen for the version found.** -/
theorem regress_cases (src : Sources) (r : RegressionRequest) (e : Engine) :
    (∃ err, e.regress src r = (.error err, e)) ∨
      ∃ rule, e.catalog.get r.stableId r.version r.preferLatest = .ok rule ∧
        r.chosen rule ≠ [] ∧
        e.regress src r =
          (((e.journal.runCases src rule (r.chosen rule)).1.map (report rule)).mapError .eval,
          ⟨e.catalog, (e.journal.runCases src rule (r.chosen rule)).2⟩) := by
  rcases hget : e.catalog.get r.stableId r.version r.preferLatest with err | rule
  · exact .inl ⟨.catalog err, by rw [regress, hget]⟩
  · by_cases hempty : (r.chosen rule).isEmpty = true
    · exact .inl ⟨.noRegressionCases rule.stableId rule.version, by
        rw [regress_eq hget, if_pos hempty]⟩
    · exact .inr ⟨rule, rfl, fun h => hempty (List.isEmpty_iff.mpr h), by
        rw [regress_eq hget, if_neg hempty]⟩

theorem catalog_evaluate (r : EvaluationRequest) (e : Engine) :
    (e.evaluate src r).2.catalog = e.catalog := by
  obtain ⟨err, h⟩ | ⟨_, _, _, _, -, -, h⟩ := evaluate_cases src r e <;> rw [h]

theorem catalog_regress (r : RegressionRequest) (e : Engine) :
    (e.regress src r).2.catalog = e.catalog := by
  obtain ⟨err, h⟩ | ⟨_, -, -, h⟩ := regress_cases src r e <;> rw [h]

theorem effect_createUnvalidated (src : Sources) {r : Request} {d : RuleDraft}
    (asked : r = .create d ∧ validate d.definition = .ok () ∨ r = .createUnvalidated d)
    (e : Engine) :
    Catalog.Effect (src.time e.journal.readings) r
      (answering .version (e.createUnvalidated src d)).1 e.catalog
      (answering .version (e.createUnvalidated src d)).2.catalog := by
  obtain ⟨err, h⟩ | ⟨hcheck, h⟩ := createUnvalidated_cases src d e
  · rw [h]
    exact .failed
  · rw [h]
    exact .appended asked hcheck

/-- A change that is carried over has the effect that it has where it succeeds. -/
theorem effect_settle {now : Timestamp} {r : Request} {e : Engine}
    {outcome : Except CatalogError (RuleVersion × Catalog)}
    (h : ∀ v c, outcome = .ok (v, c) → Catalog.Effect now r (.ok (.version v)) e.catalog c) :
    Catalog.Effect now r (answering .version (e.settle outcome)).1 e.catalog
      (answering .version (e.settle outcome)).2.catalog := by
  obtain ⟨v, c, hc, hsettle⟩ | ⟨err, -, hsettle⟩ := settle_cases e outcome
  · rw [hsettle]
    exact h v c hc
  · rw [hsettle]
    exact .failed

/-- **A request has one of the effects on the catalog**, at the time the clock shows next. -/
theorem effect_perform (src : Sources) (r : Request) (e : Engine) :
    Catalog.Effect (src.time e.journal.readings) r (e.perform src r).1 e.catalog
      (e.perform src r).2.catalog := by
  rcases r with d | d | ⟨id, number, notes⟩ | ⟨id, version, latest⟩ | _ | id | ⟨id, number, cases⟩ |
    _ | _ | _ | r | r | id | id
  case create =>
    rw [perform]
    obtain ⟨err, h⟩ | ⟨-, hvalid, h⟩ := create_cases src d e
    · rw [h]
      exact .failed
    · rw [h]
      exact effect_createUnvalidated src (.inl ⟨rfl, hvalid⟩) e
  case createUnvalidated => exact effect_createUnvalidated src (.inr rfl) e
  case publish =>
    rw [perform, publish_eq]
    exact effect_settle fun _ _ h => .published h
  case replaceCases =>
    rw [perform]
    obtain ⟨err, h⟩ | ⟨hcheck, h⟩ := replaceCases_cases src id number cases e
    · rw [h]
      exact .failed
    · rw [h]
      exact effect_settle fun _ _ hc => .replaced hcheck hc
  case clearCatalog => exact .cleared
  case evaluate =>
    rw [perform, answering, catalog_evaluate]
    exact .kept rfl
  case regress =>
    rw [perform, answering, catalog_regress]
    exact .kept rfl
  all_goals exact .kept rfl

/-! ## The store of artifacts

Two requests record: an evaluation one artifact, a regression run one for each case it gets to.
Only one request empties the store, and no request changes what is in it. -/

/-- **What a request to an engine records** — the target of an evaluation in the context of the
request, and the version under test in the context of a case. -/
inductive MayRecord (e : Engine) : Request → Artifact → Prop
  | evaluated {r : EvaluationRequest} {definition : Value} {stableId : Option String}
      {version : Option Nat} {a : Artifact}
      (found : target e.catalog r = .ok (definition, stableId, version))
      (records : a.Records stableId version definition r.context) : MayRecord e (.evaluate r) a
  | tested {r : RegressionRequest} {rule : RuleVersion} {c : RegressionCase} {a : Artifact}
      (found : e.catalog.get r.stableId r.version r.preferLatest = .ok rule)
      (chosen : c ∈ r.chosen rule)
      (records : a.Records (some rule.stableId) (some rule.version) rule.definition c.context) :
      MayRecord e (.regress r) a

theorem MayRecord.replays {e : Engine} {r : Request} {a : Artifact} (h : e.MayRecord r a) :
    a.Replays := by
  rcases h with ⟨-, records⟩ | ⟨-, -, records⟩
  · exact records.again
  · exact records.again

/-- The store after a change of the catalog is the store before. -/
theorem settle_journal (e : Engine) (outcome : Except CatalogError (RuleVersion × Catalog)) :
    (e.settle outcome).2.journal = e.journal := by
  obtain ⟨v, c, -, h⟩ | ⟨err, -, h⟩ := settle_cases e outcome <;> rw [h]

theorem store_createUnvalidated (d : RuleDraft) (e : Engine) :
    (e.createUnvalidated src d).2.journal.store = e.journal.store := by
  obtain ⟨err, h⟩ | ⟨-, h⟩ := createUnvalidated_cases src d e
  · rw [h]
  · rw [h, Journal.readClock_store]

theorem store_create (d : RuleDraft) (e : Engine) :
    (e.create src d).2.journal.store = e.journal.store := by
  obtain ⟨err, h⟩ | ⟨-, -, h⟩ := create_cases src d e
  · rw [h]
  · rw [h, store_createUnvalidated]

theorem store_publish (id : String) (number : Nat) (notes : Option String) (e : Engine) :
    (e.publish src id number notes).2.journal.store = e.journal.store := by
  rw [publish_eq, settle_journal, Journal.readClock_store]

theorem store_replaceCases (id : String) (number : Nat) (cases : List RegressionCase)
    (e : Engine) : (e.replaceCases src id number cases).2.journal.store = e.journal.store := by
  obtain ⟨err, h⟩ | ⟨-, h⟩ := replaceCases_cases src id number cases e
  · rw [h]
  · rw [h, settle_journal, Journal.readClock_store]

/-- **A request that does not empty the store only records into it**, and only what it may record —
also when it breaks off. -/
theorem store_perform (src : Sources) {r : Request} (e : Engine) (h : r ≠ .clearArtifacts) :
    ∃ made, (∀ a ∈ made, e.MayRecord r a) ∧
      (e.perform src r).2.journal.store = e.journal.store.recordAll made := by
  have still {r : Request} (h : (e.perform src r).2.journal.store = e.journal.store) :
      ∃ made, (∀ a ∈ made, e.MayRecord r a) ∧
        (e.perform src r).2.journal.store = e.journal.store.recordAll made :=
    ⟨[], fun _ ha => absurd ha List.not_mem_nil, h⟩
  rcases r with d | d | ⟨id, number, notes⟩ | ⟨id, version, latest⟩ | _ | id | ⟨id, number, cases⟩ |
    _ | _ | _ | r | r | id | id
  case create => exact still (store_create d e)
  case createUnvalidated => exact still (store_createUnvalidated d e)
  case publish => exact still (store_publish id number notes e)
  case replaceCases => exact still (store_replaceCases id number cases e)
  case clearArtifacts => exact absurd rfl h
  case evaluate =>
    obtain ⟨err, hr⟩ | ⟨definition, stableId, version, evaluation, hfound, heval, hr⟩ :=
      evaluate_cases src r e
    · exact still (by rw [perform, answering, hr])
    · refine ⟨[_], fun a ha => ?_, by rw [perform, answering, hr]; rfl⟩
      obtain rfl := List.mem_singleton.mp ha
      exact .evaluated hfound (Journal.records_record heval _ _ _)
  case regress =>
    obtain ⟨err, hr⟩ | ⟨rule, hfound, -, hr⟩ := regress_cases src r e
    · exact still (by rw [perform, answering, hr])
    · obtain ⟨made, hmade, hrecords⟩ := e.journal.runCases_store src rule (r.chosen rule)
      refine ⟨made, fun a ha => ?_, by rw [perform, answering, hr]; exact hmade⟩
      obtain ⟨hlength, hget⟩ := List.forall₂_iff_get.mp hrecords
      obtain ⟨i, rfl⟩ := List.mem_iff_get.mp ha
      refine .tested hfound ?_ (hget i i.2 (hlength ▸ i.2))
      exact (List.takeWhile_prefix _).subset (List.get_mem _ _)
  all_goals exact still rfl

/-- So what is in the store stays there, and what is recorded comes behind it. -/
theorem artifacts_perform (src : Sources) {r : Request} (e : Engine) (h : r ≠ .clearArtifacts) :
    ∃ made, (∀ a ∈ made, e.MayRecord r a) ∧
      (e.perform src r).2.journal.store.artifacts = e.journal.store.artifacts ++ made := by
  obtain ⟨made, hmay, hstore⟩ := store_perform src e h
  exact ⟨made, hmay, by rw [hstore, ArtifactStore.artifacts_recordAll]⟩

end Engine

namespace Session

variable {ι : Type} [DecidableEq ι] {src : Sources}

/-- **A request has its effect on the catalog of the engine it goes to.** -/
theorem effect_perform (src : Sources) (who : ι) (r : Request) (s : Session ι) :
    Catalog.Effect (src.time s.journal.readings) r (s.perform src who r).1 (s.catalogs who)
      ((s.perform src who r).2.catalogs who) := by
  have hcatalog : (s.perform src who r).2.catalogs who = ((s.engine who).perform src r).2.catalog :=
    if_pos rfl
  rw [hcatalog]
  exact (s.engine who).effect_perform src r

/-- The other engines keep their catalogs. -/
theorem catalogs_perform_of_ne {who i : ι} (h : i ≠ who) (src : Sources) (r : Request)
    (s : Session ι) : (s.perform src who r).2.catalogs i = s.catalogs i :=
  if_neg h

/-- **What holds at the start and survives every request holds after every run.** -/
theorem run_invariant {P : Session ι → Prop}
    (hstep : ∀ who r s, P s → P (s.perform src who r).2) :
    ∀ (requests : List (ι × Request)) {s : Session ι}, P s → P (s.run src requests).2
  | [], _, h => h
  | (who, r) :: rest, s, h => run_invariant hstep rest (hstep who r s h)

end Session

end DecisionRules
