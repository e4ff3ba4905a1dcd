import DecisionRules.Proofs.Engine.Step

/-!
# Proofs/Engine/Agreement — a rule decides the same, whichever way it is run

A rule is run by reference, by its definition given in place, or against a regression case.  The
three come to the same evaluation or fail with the same error, and the two that know the rule leave
the same record of it (`Engine.evaluate_regress_agree`).

Each of the two services looks up, evaluates and records on its own, and one of them loops.  What
ties them together is that a regression run *is* a sequence of evaluations by reference
(`Engine.regress_eq_evaluateEach`): it stops where they stop, uses up the clock and the names as
they do, and leaves the same engine behind.
-/

namespace DecisionRules

/-! ## What is told of an evaluation -/

/-- The evaluation that a response tells of. -/
def EvaluationResponse.evaluation (r : EvaluationResponse) : Evaluation := ⟨r.result, r.trace⟩

/-- The evaluation that the outcome of a case tells of. -/
def CaseOutcome.evaluation (o : CaseOutcome) : Evaluation := ⟨o.actual, o.trace⟩

/-- The evaluation that an artifact tells of. -/
def Artifact.evaluation (a : Artifact) : Evaluation := ⟨a.result, a.trace⟩

/-- **Two records of one evaluation** differ in their id and in the time they were made, and in
nothing else. -/
theorem Artifact.Records.eq_with {a b : Artifact} {stableId : Option String} {version : Option Nat}
    {definition context : Value} (ha : a.Records stableId version definition context)
    (hb : b.Records stableId version definition context) :
    b = { a with id := b.id, createdAt := b.createdAt } := by
  have hsame : Evaluation.mk a.result a.trace = ⟨b.result, b.trace⟩ :=
    Except.ok.inj (ha.replays.symm.trans hb.replays)
  obtain ⟨hresult, htrace⟩ := Evaluation.mk.inj hsame
  have hstableId : a.stableId = b.stableId := ha.stableId_eq.trans hb.stableId_eq.symm
  have hversion : a.version = b.version := ha.version_eq.trans hb.version_eq.symm
  have hdefinition : a.definition = b.definition := ha.definition_eq.trans hb.definition_eq.symm
  have hcontext : a.context = b.context := ha.context_eq.trans hb.context_eq.symm
  rw [hstableId, hversion, hdefinition, hcontext, hresult, htrace]

/-- The request to evaluate the version of a rule that a choice picks. -/
def EvaluationRequest.byReference (id : String) (version : Option Nat) (preferLatest : Bool)
    (context : Value) : EvaluationRequest :=
  ⟨none, some id, version, context, preferLatest⟩

/-- The request to evaluate an expression, to be recorded under a rule and a number as given. -/
def EvaluationRequest.inPlace (logic : Value) (stableId : Option String) (version : Option Nat)
    (preferLatest : Bool) (context : Value) : EvaluationRequest :=
  ⟨some logic, stableId, version, context, preferLatest⟩

namespace Engine

/-! ## One evaluation

What a request comes to depends on its target and on the context.  The engine has a say only in the
id and the time of the record. -/

theorem target_byReference {c : Catalog} {id : String} {version : Option Nat} {preferLatest : Bool}
    {rule : RuleVersion} (hget : c.get id version preferLatest = .ok rule) (context : Value) :
    target c (.byReference id version preferLatest context) =
      .ok (rule.definition, some rule.stableId, some rule.version) := by
  dsimp only [target, EvaluationRequest.byReference]
  rw [hget]

section

variable {e : Engine} {r : EvaluationRequest} {definition : Value} {stableId : Option String}
  {version : Option Nat}

/-- An evaluation that gets to its target answers what evaluating the target gives. -/
theorem evaluation_evaluate (src : Sources)
    (htarget : target e.catalog r = .ok (definition, stableId, version)) :
    (e.evaluate src r).1.map (·.evaluation) =
      (DecisionRules.evaluate definition r.context).mapError .eval := by
  rcases heval : DecisionRules.evaluate definition r.context with err | evaluation
  · rw [evaluate_of_error htarget heval]
    rfl
  · rw [evaluate_of_ok htarget heval]
    rfl

/-- It records what it answers, and nothing if it fails. -/
theorem recorded_evaluate (src : Sources)
    (htarget : target e.catalog r = .ok (definition, stableId, version)) :
    ∃ made, (e.evaluate src r).2.journal.store.artifacts = e.journal.store.artifacts ++ made ∧
      made.map (·.evaluation) = (DecisionRules.evaluate definition r.context).toOption.toList ∧
      ∀ a ∈ made, a.Records stableId version definition r.context := by
  rcases heval : DecisionRules.evaluate definition r.context with err | evaluation
  · rw [evaluate_of_error htarget heval]
    exact ⟨[], (List.append_nil _).symm, rfl, fun _ ha => absurd ha List.not_mem_nil⟩
  · rw [evaluate_of_ok htarget heval]
    refine ⟨[_], Journal.record_store .., rfl, fun a ha => ?_⟩
    obtain rfl := List.mem_singleton.mp ha
    exact Journal.records_record heval _ _ _

end

/-! ## A regression run is evaluations by reference -/

/-- Evaluates a rule by reference in the context of each case, up to the first evaluation that
fails. -/
def evaluateEach (src : Sources) (id : String) (version : Option Nat) (preferLatest : Bool) :
    List RegressionCase → Engine → Except EngineError (List Evaluation) × Engine
  | [], e => (.ok [], e)
  | test :: rest, e =>
    match e.evaluate src (.byReference id version preferLatest test.context) with
    | (.error err, e) => (.error err, e)
    | (.ok response, e) =>
      let (evaluations, e) := evaluateEach src id version preferLatest rest e
      (evaluations.map (response.evaluation :: ·), e)

theorem evaluateEach_singleton (src : Sources) (id : String) (version : Option Nat)
    (preferLatest : Bool) (test : RegressionCase) (e : Engine) :
    evaluateEach src id version preferLatest [test] e =
      ((e.evaluate src (.byReference id version preferLatest test.context)).1.map
          fun response => [response.evaluation],
        (e.evaluate src (.byReference id version preferLatest test.context)).2) := by
  rw [evaluateEach]
  rcases e.evaluate src (.byReference id version preferLatest test.context) with ⟨_ | _, _⟩ <;> rfl

variable {id : String} {version : Option Nat} {preferLatest : Bool} {rule : RuleVersion}

/-- **Running cases is evaluating by reference, case after case** — an evaluation leaves the catalog
alone, so every case finds the version that the run looked up once. -/
theorem runCases_eq_evaluateEach (src : Sources) {c : Catalog}
    (hget : c.get id version preferLatest = .ok rule) :
    ∀ (cases : List RegressionCase) (j : Journal),
      (((j.runCases src rule cases).1.map (List.map (·.evaluation))).mapError .eval,
        ⟨c, (j.runCases src rule cases).2⟩) =
          evaluateEach src id version preferLatest cases ⟨c, j⟩
  | [], _ => rfl
  | test :: rest, j => by
    have htarget : target (Engine.mk c j).catalog
        (.byReference id version preferLatest test.context) =
          .ok (rule.definition, some rule.stableId, some rule.version) :=
      target_byReference hget test.context
    rw [Journal.runCases, evaluateEach]
    rcases heval : DecisionRules.evaluate rule.definition test.context with err | evaluation
    · rw [evaluate_of_error htarget heval]
      rfl
    · rw [evaluate_of_ok htarget heval]
      dsimp only [EvaluationRequest.byReference]
      rw [← runCases_eq_evaluateEach src hget rest]
      rcases (Journal.runCases src rule rest _).1 with err | outcomes <;> rfl

/-- **A regression run with cases of its own is evaluating by reference, case after case**: it gives
the same evaluations or the same error, and leaves the same engine. -/
theorem regress_eq_evaluateEach (src : Sources) {e : Engine}
    (hget : e.catalog.get id version preferLatest = .ok rule) {cases : List RegressionCase}
    (hcases : cases ≠ []) :
    ((e.regress src ⟨id, version, preferLatest, cases⟩).1.map
        fun report => report.cases.map (·.evaluation),
      (e.regress src ⟨id, version, preferLatest, cases⟩).2) =
        evaluateEach src id version preferLatest cases e := by
  have hempty : ¬cases.isEmpty = true := fun h => hcases (List.isEmpty_iff.mp h)
  have hchosen : RegressionRequest.chosen ⟨id, version, preferLatest, cases⟩ rule = cases :=
    if_neg hempty
  rw [regress_eq hget, hchosen, if_neg hempty, ← runCases_eq_evaluateEach src hget]
  rcases (e.journal.runCases src rule cases).1 with err | outcomes <;> rfl

/-! ## The three ways -/

/-- **The three ways to run a rule agree.**  Where the catalog finds a version, evaluating it by
reference, evaluating its definition in place and testing it in the same context all come to what
its definition evaluates to: the same result and trace, or the same error.  The first and the last
record what they came to under the version, and their records differ in id and time only.  What
happened before, and so the journal, may be different each time. -/
theorem evaluate_regress_agree (src : Sources) {c : Catalog}
    (hget : c.get id version preferLatest = .ok rule) (test : RegressionCase)
    (attached : Option String) (number : Option Nat) (latest : Bool) (j₁ j₂ j₃ : Journal) :
    let byReference :=
      evaluate src (.byReference id version preferLatest test.context) ⟨c, j₁⟩
    let inPlace :=
      evaluate src (.inPlace rule.definition attached number latest test.context) ⟨c, j₂⟩
    let tested := regress src ⟨id, version, preferLatest, [test]⟩ ⟨c, j₃⟩
    let outcome := DecisionRules.evaluate rule.definition test.context
    byReference.1.map (·.evaluation) = outcome.mapError .eval ∧
      inPlace.1.map (·.evaluation) = outcome.mapError .eval ∧
      (tested.1.map fun report => report.cases.map (·.evaluation)) =
        (outcome.mapError .eval).map (fun evaluation => [evaluation]) ∧
      ∃ made made',
        byReference.2.journal.store.artifacts = j₁.store.artifacts ++ made ∧
        tested.2.journal.store.artifacts = j₃.store.artifacts ++ made' ∧
        made.map (·.evaluation) = outcome.toOption.toList ∧
        made'.map (·.evaluation) = outcome.toOption.toList ∧
        (∀ a ∈ made, a.stableId = some rule.stableId ∧ a.version = some rule.version) ∧
        ∀ a ∈ made, ∀ b ∈ made', b = { a with id := b.id, createdAt := b.createdAt } := by
  intro byReference inPlace tested outcome
  have htarget (j : Journal) : target (Engine.mk c j).catalog
      (.byReference id version preferLatest test.context) =
        .ok (rule.definition, some rule.stableId, some rule.version) :=
    target_byReference hget test.context
  have houtcome (j : Journal) :
      (evaluate src (.byReference id version preferLatest test.context) ⟨c, j⟩).1.map
        (·.evaluation) = outcome.mapError .eval :=
    evaluation_evaluate src (htarget j)
  -- The regression run is one more evaluation by reference, from the third journal.
  obtain ⟨hanswer, hleft⟩ := Prod.mk.inj <|
    (regress_eq_evaluateEach src (e := ⟨c, j₃⟩) hget (List.cons_ne_nil test [])).trans
      (evaluateEach_singleton ..)
  have htested : tested.1.map (fun report => report.cases.map (·.evaluation)) =
      (outcome.mapError .eval).map (fun evaluation => [evaluation]) := by
    rw [hanswer, ← houtcome j₃]
    rcases (evaluate src (.byReference id version preferLatest test.context) ⟨c, j₃⟩).1 <;> rfl
  obtain ⟨made, hmade, htold, hrecords⟩ := recorded_evaluate src (htarget j₁)
  obtain ⟨made', hmade', htold', hrecords'⟩ := recorded_evaluate src (htarget j₃)
  refine ⟨houtcome j₁, evaluation_evaluate src rfl, htested, made, made', hmade, ?_, htold, htold',
    ?_, ?_⟩
  · exact (congrArg (·.journal.store.artifacts) hleft).trans hmade'
  · exact fun a ha => ⟨(hrecords a ha).stableId_eq, (hrecords a ha).version_eq⟩
  · exact fun a ha b hb => (hrecords a ha).eq_with (hrecords' b hb)

/-- A rule that passes a field on, evaluated at the start and tested after something else was
recorded. -/
theorem evaluate_regress_agree_passingOn :
    let definition : Value := .object [("var", .string "score")]
    let draft : RuleDraft := ⟨"score", "Score", none, definition, KeyMap.empty, none, []⟩
    let c := (Catalog.empty.append draft ⟨0, 0⟩).2
    let test : RegressionCase := ⟨"given", .object [("score", .bool true)], .bool false, none⟩
    let src : Sources := ⟨fun n => ⟨n, 0⟩, fun n => toString n⟩
    let later : Journal := ⟨ArtifactStore.empty, 2, 1⟩
    ∃ rule a b, c.get "score" none false = .ok rule ∧
      (evaluate src (.byReference "score" none false test.context)
        ⟨c, Journal.empty⟩).2.journal.store.artifacts = [a] ∧
      (regress src ⟨"score", none, false, [test]⟩ ⟨c, later⟩).2.journal.store.artifacts = [b] ∧
      b = { a with id := b.id, createdAt := b.createdAt } := by
  intro definition draft c test src later
  have hget : c.get "score" none false = .ok (Catalog.draftVersion draft 1 ⟨0, 0⟩) := rfl
  have hone : (DecisionRules.evaluate definition test.context).toOption.toList.length = 1 := by
    decide +kernel
  obtain ⟨-, -, -, made, made', hmade, hmade', htold, htold', -, hsame⟩ :=
    evaluate_regress_agree src hget test none none false Journal.empty Journal.empty later
  have hlength : made.length = 1 := by rw [← hone, ← List.length_map, htold]; rfl
  have hlength' : made'.length = 1 := by rw [← hone, ← List.length_map, htold']; rfl
  obtain ⟨a, rfl⟩ := List.length_eq_one_iff.mp hlength
  obtain ⟨b, rfl⟩ := List.length_eq_one_iff.mp hlength'
  exact ⟨_, a, b, hget, hmade, hmade',
    hsame a (List.mem_singleton_self a) b (List.mem_singleton_self b)⟩

end Engine

end DecisionRules
