import DecisionRules.Proofs.Audit.Coherence
import DecisionRules.Proofs.Engine.Provenance

/-!
# Proofs/Engine/Recording — an answer and its record say the same

What is evaluated, and what it goes under, comes from one of two places
(`EvaluationRequest.Names`); what comes of it is written to two, the answer and the store.  The two
agree in everything they share, and the store has the record at once under the id in the receipt
(`Session.recorded_as_answered`).  An evaluation that fails at any stage leaves everything as it
was, and its error tells the stage.
-/

namespace DecisionRules

namespace Engine

variable {src : Sources} {e : Engine} {r : EvaluationRequest}

/-- What the store has under an id is what is given out under it. -/
theorem artifact_of_get? {id : String} {a : Artifact} (h : e.journal.store.get? id = some a) :
    e.artifact id = .ok a := by
  rw [artifact, h]

/-! ## How an evaluation fails -/

/-- A request fails with the error of the operation behind it. -/
theorem answering_eq_error_iff {α : Type} {wrap : α → Answer}
    {outcome : Except EngineError α × Engine} {err : EngineError} :
    (answering wrap outcome).1 = .error err ↔ outcome.1 = .error err := by
  rcases outcome with ⟨err' | a, e⟩
  · exact ⟨fun h => congrArg Except.error (Except.error.inj h),
      fun h => congrArg Except.error (Except.error.inj h)⟩
  · exact ⟨nofun, nofun⟩

/-- **An evaluation fails** for want of a target, or as the expression that is its target does. -/
theorem evaluate_eq_error_iff {err : EngineError} : (e.evaluate src r).1 = .error err ↔
    target e.catalog r = .error err ∨ ∃ definition stableId version fault,
      r.Names e.catalog definition stableId version ∧
        DecisionRules.evaluate definition r.context = .error fault ∧ err = .eval fault := by
  simp only [← target_eq_ok_iff]
  rcases htarget : target e.catalog r with err' | ⟨definition, stableId, version⟩
  · rw [evaluate, htarget]
    simp
  · rcases heval : DecisionRules.evaluate definition r.context with fault | evaluation
    · rw [evaluate_of_error htarget heval]
      simp [heval, eq_comm]
    · rw [evaluate_of_ok htarget heval]
      simp [heval]

/-- **What is given in place is evaluated without the catalog.** -/
theorem evaluate_inPlace (src : Sources) (h : r.logic ≠ none) (c c' : Catalog) (j : Journal) :
    (evaluate src r ⟨c, j⟩).1 = (evaluate src r ⟨c', j⟩).1 ∧
      (evaluate src r ⟨c, j⟩).2.journal = (evaluate src r ⟨c', j⟩).2.journal := by
  obtain ⟨logic, hlogic⟩ := Option.ne_none_iff_exists'.mp h
  have htarget (c : Catalog) : target (Engine.mk c j).catalog r =
      .ok (logic, r.stableId, r.version) := target_eq_ok_iff.mpr (.inPlace hlogic)
  rcases heval : DecisionRules.evaluate logic r.context with fault | evaluation
  · rw [evaluate_of_error (htarget c) heval, evaluate_of_error (htarget c') heval]
    exact ⟨rfl, rfl⟩
  · rw [evaluate_of_ok (htarget c) heval, evaluate_of_ok (htarget c') heval]
    exact ⟨rfl, rfl⟩

end Engine

namespace Session

variable {ι : Type} [DecidableEq ι] {src : Sources}

/-- A session in which one engine stays as it is stays as it is. -/
theorem withEngine_engine (s : Session ι) (who : ι) : s.withEngine who (s.engine who) = s := by
  have hcatalogs : (s.withEngine who (s.engine who)).catalogs = s.catalogs := by
    funext i
    by_cases hi : i = who
    · subst hi
      exact if_pos rfl
    · exact if_neg hi
  exact congrArg (Session.mk · s.journal) hcatalogs

/-- After a run in which no name was given out twice, the next one is that of no artifact. -/
theorem id_ne_name_of_run (hnames : Function.Injective src.name) (requests : List (ι × Request)) :
    ∀ a ∈ (run src requests empty).2.journal.store.artifacts,
      a.id ≠ src.name (run src requests empty).2.journal.issued := by
  obtain ⟨acts, hacts, -⟩ := journal_run src requests empty
  have hkeeps : (Journal.actAll src acts Journal.empty).2.Keeps src _ :=
    (Journal.keeps_nil rfl).actAll hnames acts
  have hjournal : (run src requests (empty : Session ι)).2.journal =
      (Journal.actAll src acts Journal.empty).2 := hacts
  rw [hjournal, hkeeps.artifacts_eq]
  exact hkeeps.id_ne_name hnames

/-- **An answer and its record agree**, after every run of a session and for every evaluation that
one of its engines is asked for.

If it succeeds, then exactly one artifact has been added to the store, at the end.  Its id is that
in the receipt, which is new if no name is given out twice, and every engine finds it under this id
at once.  It has the rule and the number, the result and the trace of the response, and the receipt
is the one for it.  It holds the context of the request, and the definition, rule and number that
the request names.

If it fails, then everything is as before.  The error says that there is no target if and only if
the request has neither an expression nor a rule; it is an error of the catalog if and only if there
is no expression and the lookup fails with it; and it is an error of the evaluation if and only if
what the request names fails with it.  There are no other errors.

The catalog does not matter if the request has an expression. -/
theorem recorded_as_answered (src : Sources) (front : List (ι × Request)) (who : ι)
    (r : EvaluationRequest) :
    let before := (run src front empty).2
    let answer := (before.perform src who (.evaluate r)).1
    let after := (before.perform src who (.evaluate r)).2
    (∀ given, answer = .ok given → ∃ response a, given = .response response ∧
      after.journal.store.artifacts = before.journal.store.artifacts ++ [a] ∧
      a.id = response.proof.id ∧
      (Function.Injective src.name →
        ∀ b ∈ before.journal.store.artifacts, b.id ≠ response.proof.id) ∧
      (∀ anyone, (after.perform src anyone (.artifact response.proof.id)).1 =
        .ok (.artifact a)) ∧
      response.stableId = a.stableId ∧ response.version = a.version ∧
      response.result = a.result ∧ response.trace = a.trace ∧ response.proof = a.receipt ∧
      a.context = r.context ∧
      r.Names (before.catalogs who) a.definition a.stableId a.version ∧
      evaluate a.definition a.context = .ok ⟨a.result, a.trace⟩) ∧
    (∀ err, answer = .error err → after = before ∧
      (err = .missingTarget ∨ (∃ fault, err = .catalog fault) ∨ ∃ fault, err = .eval fault)) ∧
    (answer = .error .missingTarget ↔ r.logic = none ∧ r.stableId = none) ∧
    (∀ fault, answer = .error (.catalog fault) ↔ r.logic = none ∧ ∃ id, r.stableId = some id ∧
      (before.catalogs who).get id r.version r.preferLatest = .error fault) ∧
    (∀ fault, answer = .error (.eval fault) ↔ ∃ definition stableId version,
      r.Names (before.catalogs who) definition stableId version ∧
        evaluate definition r.context = .error fault) ∧
    (r.logic ≠ none → ∀ catalogs : ι → Catalog,
      let other := (Session.mk catalogs before.journal).perform src who (.evaluate r)
      other.1 = answer ∧ other.2.journal = after.journal) := by
  intro before answer after
  have herror (err : EngineError) : answer = .error err ↔
      ((before.engine who).evaluate src r).1 = .error err := Engine.answering_eq_error_iff
  refine ⟨fun given hgiven => ?_, fun err herr => ⟨?_, ?_⟩, ?_, fun fault => ?_, fun fault => ?_,
    fun hlogic catalogs => ?_⟩
  · obtain ⟨err, h⟩ | ⟨definition, stableId, version, evaluation, htarget, heval, h⟩ :=
      Engine.evaluate_cases src r (before.engine who)
    · rw [(herror err).mpr (congrArg Prod.fst h)] at hgiven
      cases hgiven
    · let recorded := before.journal.record src stableId version definition r.context evaluation
      let response : EvaluationResponse :=
        ⟨stableId, version, evaluation.result, evaluation.trace, recorded.1.receipt⟩
      have hresponse : given = .response response :=
        (Except.ok.inj (hgiven.symm.trans (congrArg (·.1.map Answer.response) h)))
      have hjournal : after.journal = recorded.2 := congrArg (·.2.journal) h
      refine ⟨response, recorded.1, hresponse, ?_, rfl, fun hnames => ?_, fun anyone => ?_, rfl,
        rfl, rfl, rfl, rfl, rfl, Engine.target_eq_ok_iff.mp htarget, heval⟩
      · rw [hjournal, Journal.record_store]
      · exact id_ne_name_of_run hnames front
      · have hfound : after.journal.store.get? recorded.1.id = some recorded.1 := by
          rw [hjournal, Journal.record_get?]
          exact if_pos rfl
        exact congrArg (Except.map Answer.artifact)
          (Engine.artifact_of_get? (e := after.engine anyone) hfound)
  · obtain ⟨_, h⟩ | ⟨_, _, _, _, -, -, h⟩ := Engine.evaluate_cases src r (before.engine who)
    · exact (congrArg (before.withEngine who ·.2) h).trans (before.withEngine_engine who)
    · rw [herror, h] at herr
      cases herr
  · rw [herror, Engine.evaluate_eq_error_iff, Engine.target_eq_error_iff] at herr
    obtain ⟨-, ⟨-, rfl⟩ | ⟨_, fault, -, -, rfl⟩⟩ | ⟨_, _, _, fault, -, -, rfl⟩ := herr
    · exact .inl rfl
    · exact .inr (.inl ⟨fault, rfl⟩)
    · exact .inr (.inr ⟨fault, rfl⟩)
  · rw [herror, Engine.evaluate_eq_error_iff, Engine.target_eq_error_iff]
    simp
  · rw [herror, Engine.evaluate_eq_error_iff, Engine.target_eq_error_iff]
    simp [engine]
  · rw [herror, Engine.evaluate_eq_error_iff, Engine.target_eq_error_iff]
    simp [engine]
  · obtain ⟨houtcome, hjournal⟩ :=
      Engine.evaluate_inPlace src hlogic (catalogs who) (before.catalogs who) before.journal
    exact ⟨congrArg (Except.map Answer.response) houtcome, hjournal⟩

end Session

end DecisionRules
