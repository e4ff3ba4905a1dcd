import DecisionRules.Proofs.Engine.Accounting
import DecisionRules.Proofs.Engine.Provenance
import DecisionRules.Proofs.Rule.Validation

/-!
# Proofs/Engine/Acceptance — a rule that was accepted never fails by how it is built

An engine accepts a draft whose form is in order and whose definition passes validation.  If all
rules of a catalog came in that way, every version in it passes validation, since nothing that is
done to a version touches its definition (`Catalog.Effect.accepted`).  A run of a rule evaluates the
definition of a version that was looked up (`Engine.evaluate_of_eval_error`), so it cannot come upon
a node that is not well-built (`Session.never_structural_of_run`).
-/

namespace DecisionRules

/-! ## What is in the catalog -/

namespace Catalog

variable {c c' : Catalog}

/-- **Every definition in a catalog passes validation.** -/
def Accepted (c : Catalog) : Prop := ∀ id, ∀ v ∈ c.history id, validate v.definition = .ok ()

theorem accepted_empty : empty.Accepted := fun _ _ hv => absurd hv List.not_mem_nil

/-- A version list put in place matters for its rule alone. -/
theorem Accepted.withHistory (h : c.Accepted) {id : String} {versions : List RuleVersion}
    (hversions : ∀ v ∈ versions, validate v.definition = .ok ()) :
    (c.withHistory id versions).Accepted := by
  intro other v hv
  by_cases hid : other = id
  · subst hid
    rw [history_withHistory_self] at hv
    exact hversions v hv
  · rw [history, get?_withHistory, if_neg hid] at hv
    exact h other v hv

/-- A change that leaves definitions alone leaves them valid. -/
theorem Accepted.change (h : c.Accepted) {id : String} {number : Nat}
    {before f : RuleVersion → RuleVersion} {v : RuleVersion}
    (hchange : c.change id number before f = .ok (v, c'))
    (hbefore : ∀ u, (before u).definition = u.definition)
    (hf : ∀ u, (f u).definition = u.definition) : c'.Accepted := by
  obtain ⟨-, front, w, back, hsplit, -, -, -, rfl⟩ := change_eq_ok hchange
  refine h.withHistory fun u hu => ?_
  have hkept := map_of_change hbefore hsplit (hf w)
  have hmem : u.definition ∈ (c.history id).map (·.definition) :=
    hkept ▸ List.mem_map_of_mem hu
  obtain ⟨u', hu', hsame⟩ := List.mem_map.mp hmem
  rw [← hsame]
  exact h id u' hu'

/-- **A request keeps the catalog accepted**, unless it is meant to create without validating. -/
theorem Effect.accepted {now : Timestamp} {r : Request} {answer : Except EngineError Answer}
    (heffect : Effect now r answer c c') (hr : ∀ d, r ≠ .createUnvalidated d) (h : c.Accepted) :
    c'.Accepted := by
  cases heffect with
  | @appended _ d _ asked =>
    obtain ⟨-, hvalid⟩ | hunvalidated := asked
    · rw [append_eq]
      refine h.withHistory fun v hv => ?_
      rcases List.mem_append.mp hv with hold | hnew
      · exact h _ v hold
      · obtain rfl := List.mem_singleton.mp hnew
        exact hvalid
    · exact absurd hunvalidated (hr d)
  | published hpublish =>
    refine h.change hpublish (fun u => ?_) fun _ => rfl
    obtain ⟨_, _, hdemote⟩ := demote_eq_with u
    rw [hdemote]
  | replaced _ hreplace => exact h.change hreplace (fun _ => rfl) fun _ => rfl
  | cleared => exact accepted_empty
  | failed => exact h
  | kept => exact h

end Catalog

/-! ## Where an error of an evaluation comes from -/

namespace Engine

variable {src : Sources} {e : Engine}

/-- An evaluation that does not get to its target did not evaluate anything. -/
theorem target_ne_eval {c : Catalog} {q : EvaluationRequest} (err : EvalError) :
    target c q ≠ .error (.eval err) := by
  intro h
  obtain ⟨-, ⟨-, hnone⟩ | ⟨_, _, -, -, hlookup⟩⟩ := target_eq_error_iff.mp h
  · cases hnone
  · cases hlookup

/-- **An evaluation error of a rule that is run** is that of a version looked up in the catalog. -/
theorem evaluate_of_eval_error {r : Request} (hrule : r.RunsRule) {err : EvalError}
    (h : (e.perform src r).1 = .error (.eval err)) : ∃ id version preferLatest rule context,
      e.catalog.get id version preferLatest = .ok rule ∧
        DecisionRules.evaluate rule.definition context = .error err := by
  cases r with
  | evaluate q =>
    rcases htarget : target e.catalog q with err' | ⟨definition, stableId, version⟩
    · rw [perform, answering, evaluate, htarget] at h
      obtain rfl : err' = .eval err := Except.error.inj h
      exact absurd htarget (target_ne_eval err)
    · obtain ⟨id, rule, hget, rfl, -, -⟩ := target_of_logic_none hrule htarget
      rcases heval : DecisionRules.evaluate rule.definition q.context with err' | evaluation
      · rw [perform, answering, evaluate_of_error htarget heval] at h
        obtain rfl : err' = err := EngineError.eval.inj (Except.error.inj h)
        exact ⟨id, _, _, rule, q.context, hget, heval⟩
      · rw [perform, answering, evaluate_of_ok htarget heval] at h
        cases h
  | regress q =>
    rcases hget : e.catalog.get q.stableId q.version q.preferLatest with err' | rule
    · rw [perform, answering, regress, hget] at h
      cases h
    · by_cases hempty : (q.chosen rule).isEmpty = true
      · rw [perform, answering, regress_eq hget, if_pos hempty] at h
        cases h
      · rw [perform, answering, regress_eq hget, if_neg hempty] at h
        rw [Journal.fst_runCases] at h
        rcases hrun : caseOutcomes rule.definition (q.chosen rule) with err' | outcomes
        · rw [hrun] at h
          obtain rfl : err' = err := EngineError.eval.inj (Except.error.inj h)
          obtain ⟨c, -, heval⟩ := exists_of_caseOutcomes_error hrun
          exact ⟨_, _, _, rule, c.context, hget, heval⟩
        · rw [hrun] at h
          cases h
  | _ => exact hrule.elim

/-! ## What is accepted -/

/-- **A draft is accepted if and only if its form is in order and its definition passes
validation.** -/
theorem create_ok_iff (src : Sources) (d : RuleDraft) (e : Engine) :
    (∃ v, (e.create src d).1 = .ok v) ↔ d.check = .ok () ∧ validate d.definition = .ok () := by
  rw [create]
  rcases hcheck : d.check with fault | ⟨⟩
  · simp
  · rcases hvalid : validate d.definition with err | ⟨⟩
    · simp
    · simp [createUnvalidated_of_check src hcheck]

/-- One that is accepted is stored as it would be without validation. -/
theorem create_eq_createUnvalidated (src : Sources) {d : RuleDraft} {e : Engine} {v : RuleVersion}
    (h : (e.create src d).1 = .ok v) : e.create src d = e.createUnvalidated src d := by
  obtain ⟨err, herr⟩ | ⟨-, -, hcreate⟩ := create_cases src d e
  · rw [herr] at h
    cases h
  · exact hcreate

end Engine

namespace Session

variable {ι : Type} [DecidableEq ι]

/-- A run keeps a catalog accepted to which nothing is added without validation. -/
theorem accepted_run (src : Sources) (who : ι) :
    ∀ (requests : List (ι × Request)) (s : Session ι),
      (∀ d, (who, Request.createUnvalidated d) ∉ requests) → (s.catalogs who).Accepted →
        ((s.run src requests).2.catalogs who).Accepted
  | [], _, _, h => h
  | (i, r) :: rest, s, honly, h => by
    have hnext : ((s.perform src i r).2.catalogs who).Accepted := by
      by_cases hi : i = who
      · subst hi
        refine (s.effect_perform src i r).accepted (fun d hd => honly d ?_) h
        rw [hd]
        exact List.mem_cons_self
      · rw [catalogs_perform_of_ne (Ne.symm hi)]
        exact h
    have hrest : ∀ d, (who, Request.createUnvalidated d) ∉ rest := fun d hd =>
      honly d (List.mem_cons_of_mem _ hd)
    exact accepted_run src who rest (s.perform src i r).2 hrest hnext

/-- **Rules accepted at creation never fail by how they are built.**  In every run in which nothing
is added to the catalog of an engine without validation, every version in it passes validation, and
no run of a rule — by reference or against regression cases, whatever version is picked and in
whatever contexts — comes upon an object that is no node, or upon an unknown operator.  A draft is
accepted if and only if its form is in order and its definition passes validation, and is then
stored as it would be without validation. -/
theorem never_structural_of_run (src : Sources) (who : ι) (requests : List (ι × Request))
    (honly : ∀ d, (who, Request.createUnvalidated d) ∉ requests) :
    let s := (run src requests empty).2
    (∀ id, ∀ v ∈ ((s.catalogs who).versions id).toOption.getD [],
        validate v.definition = .ok ()) ∧
      (∀ asked : Request, asked.RunsRule →
        (∀ path keys, (s.perform src who asked).1 ≠ .error (.eval (.malformedNode path keys))) ∧
        ∀ name path,
          (s.perform src who asked).1 ≠ .error (.eval (.unsupportedOperator name path))) ∧
      ∀ (d : RuleDraft) (e : Engine),
        ((∃ v, (e.create src d).1 = .ok v) ↔ d.check = .ok () ∧ validate d.definition = .ok ()) ∧
        ∀ v, (e.create src d).1 = .ok v → e.create src d = e.createUnvalidated src d := by
  intro s
  have haccepted : (s.catalogs who).Accepted :=
    accepted_run src who requests empty honly Catalog.accepted_empty
  have hnever (asked : Request) (hasked : asked.RunsRule) (err : EvalError)
      (h : (s.perform src who asked).1 = .error (.eval err)) : ¬ err.IsStructural := by
    obtain ⟨id, version, preferLatest, rule, context, hget, heval⟩ :=
      Engine.evaluate_of_eval_error hasked h
    have hfilled : (s.catalogs who).rules.get? id ≠ some [] :=
      (counts_run src who id requests empty (Tally.counts_empty id)).filled
    have hrule : rule ∈ (s.catalogs who).history id := Catalog.mem_history_of_get hfilled hget
    exact not_isStructural_of_validate (haccepted id rule hrule) heval
  refine ⟨fun id v hv => ?_, fun asked hasked => ⟨fun path keys h => ?_, fun name path h => ?_⟩,
    fun d e => ⟨Engine.create_ok_iff src d e, fun v => Engine.create_eq_createUnvalidated src⟩⟩
  · rw [Catalog.history_of_versions] at hv
    exact haccepted id v hv
  · exact hnever asked hasked _ h trivial
  · exact hnever asked hasked _ h trivial

/-- A rule that is revised and fails in a context it does not expect, while another engine stores
one that is no expression. -/
theorem never_structural_of_run_revised :
    let unset : Value := .object [("bl_any", .array [.object [("var", .string "xs")],
      .object [("!", .array [.object [("var", .string "item")]])]])]
    let draft : RuleDraft := ⟨"any-unset", "Any unset", none, unset, KeyMap.empty, none, []⟩
    let requests : List (Bool × Request) :=
      [(true, .create draft), (false, .createUnvalidated { draft with definition := .object [] }),
        (true, .publish draft.stableId 1 none), (true, .create draft)]
    let src : Sources := ⟨fun n => ⟨n, 0⟩, fun n => toString n⟩
    let s := (run src requests empty).2
    let asked : Request :=
      .evaluate ⟨none, some draft.stableId, none, .object [("xs", .bool true)], false⟩
    (∀ d, (true, Request.createUnvalidated d) ∉ requests) ∧
      (s.perform src true asked).1.isOk = false ∧
      (∀ path keys, (s.perform src true asked).1 ≠ .error (.eval (.malformedNode path keys))) ∧
      ∀ name path, (s.perform src true asked).1 ≠ .error (.eval (.unsupportedOperator name path)) :=
    by
  intro unset draft requests src s asked
  have honly : ∀ d, (true, Request.createUnvalidated d) ∉ requests := by simp [requests]
  obtain ⟨-, hnever, -⟩ := never_structural_of_run src true requests honly
  obtain ⟨hmalformed, hunsupported⟩ := hnever asked rfl
  exact ⟨honly, by decide +kernel, hmalformed, hunsupported⟩

end Session

end DecisionRules
