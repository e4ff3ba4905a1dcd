import DecisionRules.Proofs.Catalog.Tally
import Mathlib.Data.List.TakeWhile

/-!
# Proofs/Engine/Accounting — a regression run accounts for its cases

A regression run goes through its cases in order.  One that does not come out as expected is counted
and passed over; an evaluation that fails ends the run with its error.  Either way there is one
record for each case that was evaluated, and the catalogs are left alone
(`Session.accounts_of_regress`).

The loop reports and records at once.  The two are taken apart here: what it reports is how each
case goes on its own and has nothing to do with the journal (`Journal.fst_runCases`), and what it
records is the evaluations before the first that fails (`Journal.runCases_store`).
-/

namespace DecisionRules

/-! ## How cases go -/

/-- How cases go that a definition is tested against, unless an evaluation fails. -/
def caseOutcomes (definition : Value) (cases : List RegressionCase) :
    Except EvalError (List CaseOutcome) :=
  cases.mapM fun c => (evaluate definition c.context).map (Journal.caseOutcome c)

/-- How cases go does not depend on what is recorded of them. -/
theorem Journal.fst_runCases (src : Sources) (rule : RuleVersion) :
    ∀ (cases : List RegressionCase) (j : Journal),
      (j.runCases src rule cases).1 = caseOutcomes rule.definition cases
  | [], _ => rfl
  | c :: rest, j => by
    rw [caseOutcomes, List.mapM_cons, runCases]
    rcases evaluate rule.definition c.context with err | evaluation
    · rfl
    · dsimp only
      rw [fst_runCases src rule rest]
      rfl

/-- **An outcome reports on a case**: it repeats what the case says, it shows what the definition
gives in the context of the case, and it is a success if this is what was expected. -/
structure CaseOutcome.Reports (o : CaseOutcome) (definition : Value) (test : RegressionCase) :
    Prop where
  name_eq : o.name = test.name
  description_eq : o.description = test.description
  expected_eq : o.expected = test.expected
  evaluates : evaluate definition test.context = .ok ⟨o.actual, o.trace⟩
  success_iff : o.success = true ↔ (o.actual == o.expected) = true

/-- Whether an outcome is a success can be read off the evaluation. -/
theorem CaseOutcome.Reports.comparison {o : CaseOutcome} {definition : Value}
    {test : RegressionCase} (h : o.Reports definition test) :
    (evaluate definition test.context).toOption.map (·.result == test.expected) =
      some o.success := by
  rw [h.evaluates]
  exact congrArg some (Bool.eq_iff_iff.mpr (h.expected_eq ▸ h.success_iff.symm))

section

variable {definition : Value} {test : RegressionCase} {rest : List RegressionCase}

theorem caseOutcomes_cons_of_ok {e : Evaluation}
    (h : evaluate definition test.context = .ok e) : caseOutcomes definition (test :: rest) =
      (caseOutcomes definition rest).map (Journal.caseOutcome test e :: ·) := by
  rw [caseOutcomes, List.mapM_cons, h, ← caseOutcomes]
  rcases caseOutcomes definition rest with err | outcomes <;> rfl

theorem caseOutcomes_cons_of_error {err : EvalError}
    (h : evaluate definition test.context = .error err) :
    caseOutcomes definition (test :: rest) = .error err := by
  rw [caseOutcomes, List.mapM_cons, h]
  rfl

/-- **Cases that can be evaluated are all reported on**, in order. -/
theorem exists_caseOutcomes : ∀ {cases : List RegressionCase},
    (∀ test ∈ cases, (evaluate definition test.context).isOk = true) →
      ∃ outcomes, caseOutcomes definition cases = .ok outcomes ∧
        List.Forall₂ (fun o test => o.Reports definition test) outcomes cases
  | [], _ => ⟨[], rfl, .nil⟩
  | test :: rest, h => by
    rw [List.forall_mem_cons] at h
    obtain ⟨hfirst, hrest⟩ := h
    obtain ⟨outcomes, houtcomes, hreports⟩ := exists_caseOutcomes hrest
    rcases heval : evaluate definition test.context with err | e
    · rw [heval] at hfirst
      cases hfirst
    · refine ⟨Journal.caseOutcome test e :: outcomes, ?_,
        .cons ⟨rfl, rfl, rfl, heval, Iff.rfl⟩ hreports⟩
      rw [caseOutcomes_cons_of_ok heval, houtcomes]
      rfl

/-- **The first case that cannot be evaluated** gives its error to the whole. -/
theorem caseOutcomes_append_of_error {err : EvalError} :
    ∀ {passed : List RegressionCase},
      (∀ test ∈ passed, (evaluate definition test.context).isOk = true) →
        evaluate definition test.context = .error err →
          caseOutcomes definition (passed ++ test :: rest) = .error err
  | [], _, herr => caseOutcomes_cons_of_error herr
  | first :: passed, h, herr => by
    rw [List.forall_mem_cons] at h
    obtain ⟨hfirst, hpassed⟩ := h
    rcases heval : evaluate definition first.context with err' | e
    · rw [heval] at hfirst
      cases hfirst
    · rw [List.cons_append, caseOutcomes_cons_of_ok heval,
        caseOutcomes_append_of_error hpassed herr]
      rfl

/-- **Either all cases can be evaluated, or there is a first that cannot.** -/
theorem forall_isOk_or_exists_first (definition : Value) : ∀ cases : List RegressionCase,
    (∀ test ∈ cases, (evaluate definition test.context).isOk = true) ∨
      ∃ passed test rest err, cases = passed ++ test :: rest ∧
        (∀ test ∈ passed, (evaluate definition test.context).isOk = true) ∧
          evaluate definition test.context = .error err
  | [] => .inl fun _ h => absurd h List.not_mem_nil
  | first :: rest => by
    rcases heval : evaluate definition first.context with err | e
    · exact .inr ⟨[], first, rest, err, rfl, fun _ h => absurd h List.not_mem_nil, heval⟩
    · have hfirst : (evaluate definition first.context).isOk = true := by
        rw [heval]
        rfl
      obtain hrest | ⟨passed, test, rest, err, rfl, hpassed, herr⟩ :=
        forall_isOk_or_exists_first definition rest
      · exact .inl (List.forall_mem_cons.mpr ⟨hfirst, hrest⟩)
      · exact .inr ⟨first :: passed, test, rest, err, rfl,
          List.forall_mem_cons.mpr ⟨hfirst, hpassed⟩, herr⟩

/-- So if all is reported, it is reported on all of them, -/
theorem reports_of_caseOutcomes {cases : List RegressionCase} {outcomes : List CaseOutcome}
    (h : caseOutcomes definition cases = .ok outcomes) :
    List.Forall₂ (fun o test => o.Reports definition test) outcomes cases := by
  obtain hall | ⟨passed, test, rest, err, rfl, hpassed, herr⟩ :=
    forall_isOk_or_exists_first definition cases
  · obtain ⟨_, houtcomes, hreports⟩ := exists_caseOutcomes hall
    rw [houtcomes] at h
    exact Except.ok.inj h ▸ hreports
  · rw [caseOutcomes_append_of_error hpassed herr] at h
    cases h

/-- each outcome reports on one of them, -/
theorem exists_reports_of_caseOutcomes {cases : List RegressionCase} {outcomes : List CaseOutcome}
    (h : caseOutcomes definition cases = .ok outcomes) {o : CaseOutcome} (ho : o ∈ outcomes) :
    ∃ test ∈ cases, o.Reports definition test := by
  obtain ⟨hlength, hreports⟩ := List.forall₂_iff_get.mp (reports_of_caseOutcomes h)
  obtain ⟨i, rfl⟩ := List.mem_iff_get.mp ho
  exact ⟨_, List.get_mem _ _, hreports i i.2 (hlength ▸ i.2)⟩

/-- and an error is that of one of them. -/
theorem exists_of_caseOutcomes_error {cases : List RegressionCase} {err : EvalError}
    (h : caseOutcomes definition cases = .error err) :
    ∃ test ∈ cases, evaluate definition test.context = .error err := by
  obtain hall | ⟨passed, test, rest, err', rfl, hpassed, herr⟩ :=
    forall_isOk_or_exists_first definition cases
  · obtain ⟨_, houtcomes, -⟩ := exists_caseOutcomes hall
    rw [houtcomes] at h
    cases h
  · rw [caseOutcomes_append_of_error hpassed herr] at h
    obtain rfl : err' = err := Except.error.inj h
    exact ⟨test, List.mem_append_right passed List.mem_cons_self, herr⟩

end

/-! ## The report -/

/-- **The figures of a report add up.** -/
structure RegressionReport.AddsUp (report : RegressionReport) : Prop where
  total_eq : report.total = report.cases.length
  sum_eq : report.passed + report.failed = report.total
  failed_eq : report.failed = report.cases.countP (!·.success)
  allPassed_iff : report.allPassed = true ↔ report.failures = []

/-- What is not a success is a failure. -/
theorem length_sub_countP_success (outcomes : List CaseOutcome) :
    outcomes.length - outcomes.countP (·.success) = outcomes.countP (!·.success) := by
  have hsum := outcomes.length_eq_countP_add_countP (·.success)
  simp only [Bool.not_eq_true, Bool.decide_eq_false] at hsum
  omega

theorem Engine.addsUp_report (rule : RuleVersion) (outcomes : List CaseOutcome) :
    (report rule outcomes).AddsUp := by
  have hfailed : (report rule outcomes).failed = outcomes.countP (!·.success) :=
    length_sub_countP_success outcomes
  refine ⟨rfl, Nat.add_sub_cancel' List.countP_le_length, hfailed, ?_⟩
  rw [RegressionReport.allPassed, beq_iff_eq, hfailed, RegressionReport.failures,
    List.countP_eq_length_filter, List.length_eq_zero_iff]
  rfl

/-! ## The run -/

namespace Session

variable {ι : Type} [DecidableEq ι]

/-- **A regression run accounts for its cases.**  Say that the lookup finds a version, and that
there are cases to test it with.

If its definition can be evaluated in the context of every case, then the run succeeds.  Its report
is about this version and has an outcome for each case, in the same order, with figures that add up;
and one record for each case has been added to the store, in the same order, with the evaluation
that the outcome shows.

If the evaluation fails for one of the cases, then the run fails with the error of the first of
these, and there is one record for each case before it.

Either way, no catalog has changed. -/
theorem accounts_of_regress (src : Sources) (front : List (ι × Request)) (who : ι)
    (r : RegressionRequest) {rule : RuleVersion}
    (hget : ((run src front empty).2.catalogs who).get r.stableId r.version r.preferLatest =
      .ok rule)
    (hcases : r.chosen rule ≠ []) :
    let before := (run src front empty).2
    let cases := r.chosen rule
    let answer := (before.perform src who (.regress r)).1
    let after := (before.perform src who (.regress r)).2
    after.catalogs = before.catalogs ∧
      ((∀ test ∈ cases, (evaluate rule.definition test.context).isOk = true) →
        ∃ report made, answer = .ok (.report report) ∧
          report.stableId = r.stableId ∧ report.version = rule.version ∧
          report.total = cases.length ∧ report.AddsUp ∧
          List.Forall₂ (fun o test => o.Reports rule.definition test) report.cases cases ∧
          after.journal.store.artifacts = before.journal.store.artifacts ++ made ∧
          List.Forall₂ (fun a test => a.Records (some r.stableId) (some rule.version)
            rule.definition test.context) made cases) ∧
      ∀ passed test rest err, cases = passed ++ test :: rest →
        (∀ test ∈ passed, (evaluate rule.definition test.context).isOk = true) →
        evaluate rule.definition test.context = .error err →
          answer = .error (.eval err) ∧
            ∃ made, after.journal.store.artifacts = before.journal.store.artifacts ++ made ∧
              List.Forall₂ (fun a test => a.Records (some r.stableId) (some rule.version)
                rule.definition test.context) made passed := by
  intro before cases answer after
  have hcounts := counts_run src who r.stableId front empty (Tally.counts_empty r.stableId)
  have hid : rule.stableId = r.stableId :=
    hcounts.stableId_eq (Catalog.mem_history_of_get hcounts.filled hget)
  have hempty : ¬ cases.isEmpty = true := fun h => hcases (List.isEmpty_iff.mp h)
  have hregress : (before.engine who).regress src r = _ := Engine.regress_eq hget
  rw [if_neg hempty, Journal.fst_runCases] at hregress
  obtain ⟨made, hmade, hrecords⟩ := before.journal.runCases_store src rule cases
  rw [hid] at hrecords
  have hanswer : answer = ((((caseOutcomes rule.definition cases).map
      (Engine.report rule)).mapError .eval).map .report) :=
    congrArg (fun outcome => outcome.1.map Answer.report) hregress
  have hstore : after.journal.store.artifacts = before.journal.store.artifacts ++ made := by
    have hjournal : after.journal = (before.journal.runCases src rule cases).2 :=
      congrArg (fun outcome => outcome.2.journal) hregress
    rw [hjournal, hmade, ArtifactStore.artifacts_recordAll]
  refine ⟨?_, fun hall => ?_, ?_⟩
  · funext i
    by_cases hi : i = who
    · subst hi
      exact (if_pos rfl).trans (congrArg (fun outcome => outcome.2.catalog) hregress)
    · exact catalogs_perform_of_ne hi src _ before
  · obtain ⟨outcomes, houtcomes, hreports⟩ := exists_caseOutcomes hall
    have hwhole : cases.takeWhile (fun test => (evaluate rule.definition test.context).isOk) =
        cases := List.takeWhile_eq_self_iff.mpr hall
    rw [hwhole] at hrecords
    rw [houtcomes] at hanswer
    exact ⟨Engine.report rule outcomes, made, hanswer, hid, rfl, hreports.length_eq,
      Engine.addsUp_report rule outcomes, hreports, hstore, hrecords⟩
  · intro passed test rest err hsplit hpassed herr
    have hbefore : cases.takeWhile (fun test => (evaluate rule.definition test.context).isOk) =
        passed := by
      rw [hsplit, List.takeWhile_append_of_pos hpassed, List.takeWhile_cons_of_neg, List.append_nil]
      rw [herr]
      exact Bool.false_ne_true
    rw [hbefore] at hrecords
    rw [hsplit, caseOutcomes_append_of_error hpassed herr] at hanswer
    exact ⟨hanswer, made, hstore, hrecords⟩

/-- A run with a case that goes wrong, and then one that breaks off at its second case. -/
theorem accounts_of_regress_brokenOff :
    let unset : Value := .object [("bl_any", .array [.object [("var", .string "xs")],
      .object [("!", .array [.object [("var", .string "item")]])]])]
    let draft : RuleDraft := ⟨"any-unset", "Any unset", none, unset, KeyMap.empty, none, []⟩
    let right : RegressionCase := ⟨"right", .object [("xs", .array [.null])], .bool true, none⟩
    let wrong : RegressionCase := ⟨"wrong", .object [("xs", .array [])], .bool true, none⟩
    let broken : RegressionCase := ⟨"broken", .object [("xs", .bool true)], .bool true, none⟩
    let src : Sources := ⟨fun n => ⟨n, 0⟩, fun n => toString n⟩
    let s := (run src [(true, .create draft)] empty).2
    let whole := s.perform src true (.regress ⟨"any-unset", none, false, [wrong, right]⟩)
    let part := s.perform src true (.regress ⟨"any-unset", none, false, [right, broken, wrong]⟩)
    (∃ report o o' a b, whole.1 = .ok (.report report) ∧ report.cases = [o, o'] ∧
      o.success = false ∧ o'.success = true ∧ report.failed = 1 ∧
      whole.2.journal.store.artifacts = [a, b] ∧ a.context = wrong.context ∧
      b.context = right.context) ∧
    ∃ err a, part.1 = .error (.eval err) ∧ part.2.journal.store.artifacts = [a] ∧
      a.context = right.context := by
  intro unset draft right wrong broken src s whole part
  have hgoes : ((s.catalogs true).get "any-unset" none false).toOption.map (fun rule =>
      [right, wrong, broken].map fun test => (evaluate rule.definition test.context).toOption.map
        (·.result == test.expected)) = some [some true, some false, none] := by
    decide +kernel
  have hnothing : s.journal.store.artifacts = [] := List.length_eq_zero_iff.mp (by decide +kernel)
  rcases hget : (s.catalogs true).get "any-unset" none false with err | rule
  · rw [hget] at hgoes
    cases hgoes
  rw [hget] at hgoes
  obtain ⟨hright, hrest⟩ := List.cons.inj (Option.some.inj hgoes)
  obtain ⟨hwrong, hrest⟩ := List.cons.inj hrest
  obtain ⟨hbroken, -⟩ := List.cons.inj hrest
  dsimp only at hbroken
  have hok {test : RegressionCase} {b : Bool}
      (h : (evaluate rule.definition test.context).toOption.map (·.result == test.expected) =
        some b) : (evaluate rule.definition test.context).isOk = true := by
    rcases heval : evaluate rule.definition test.context with err | e
    · rw [heval] at h
      cases h
    · rfl
  obtain ⟨-, hwhole, -⟩ := accounts_of_regress src [(true, .create draft)] true
    ⟨"any-unset", none, false, [wrong, right]⟩ hget (List.cons_ne_nil wrong [right])
  obtain ⟨-, -, hpart⟩ := accounts_of_regress src [(true, .create draft)] true
    ⟨"any-unset", none, false, [right, broken, wrong]⟩ hget (List.cons_ne_nil right [broken, wrong])
  refine ⟨?_, ?_⟩
  · obtain ⟨report, made, hanswer, -, -, -, hadds, hreports, hmade, hrecords⟩ :=
      hwhole (by simpa [RegressionRequest.chosen] using ⟨hok hwrong, hok hright⟩)
    obtain ⟨o, _, ho, hmore, hcases⟩ := List.forall₂_cons_right_iff.mp hreports
    obtain ⟨o', _, ho', hnone, rfl⟩ := List.forall₂_cons_right_iff.mp hmore
    obtain rfl := List.forall₂_nil_right_iff.mp hnone
    obtain ⟨a, _, ha, hmore, rfl⟩ := List.forall₂_cons_right_iff.mp hrecords
    obtain ⟨b, _, hb, hnone, rfl⟩ := List.forall₂_cons_right_iff.mp hmore
    obtain rfl := List.forall₂_nil_right_iff.mp hnone
    have hsuccess : o.success = false := Option.some.inj (ho.comparison.symm.trans hwrong)
    have hsuccess' : o'.success = true := Option.some.inj (ho'.comparison.symm.trans hright)
    refine ⟨report, o, o', a, b, hanswer, hcases, hsuccess, hsuccess', ?_, ?_, ha.context_eq,
      hb.context_eq⟩
    · rw [hadds.failed_eq, hcases]
      simp [hsuccess, hsuccess']
    · exact hmade.trans (congrArg (· ++ [a, b]) hnothing)
  · rcases herr : evaluate rule.definition broken.context with err | e
    · obtain ⟨hanswer, made, hmade, hrecords⟩ := hpart [right] broken [wrong] err rfl
        (by simpa using hok hright) herr
      obtain ⟨a, _, ha, hnone, rfl⟩ := List.forall₂_cons_right_iff.mp hrecords
      obtain rfl := List.forall₂_nil_right_iff.mp hnone
      exact ⟨err, a, hanswer, hmade.trans (congrArg (· ++ [a]) hnothing), ha.context_eq⟩
    · rw [herr] at hbroken
      cases hbroken

end Session

end DecisionRules
