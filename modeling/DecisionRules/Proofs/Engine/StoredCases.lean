import DecisionRules.Proofs.Catalog.Stored
import DecisionRules.Proofs.Engine.Accounting
import DecisionRules.Proofs.Engine.Agreement
import DecisionRules.Proofs.Engine.Recording
import DecisionRules.Proofs.Value.Related

/-!
# Proofs/Engine/StoredCases — where cases come from makes no difference

A regression run uses the cases that are stored with a version, or those that come with the request.
Of the version it uses the rest: what it says about itself and its definition.  So what matters of a
catalog is what is left of it without the cases (`Catalog.SameButCases`).  Lookups agree on that
(`Catalog.SameButCases.get`), and so do runs that choose the same cases (`Engine.regress_agree`):
they come to the same and leave records that differ in their ids and times only.

To replace the stored cases changes nothing else (`Catalog.sameButCases_of_replaceCases`).  A run
that uses the stored cases afterwards and one that brings the same cases along are two such runs.
-/

namespace DecisionRules

/-- A version without its cases, and without the time of its last change, which tells of them. -/
def RuleVersion.withoutCases (v : RuleVersion) : RuleVersion :=
  { v with regressionCases := [], updatedAt := v.createdAt }

namespace Catalog

/-! ## Catalogs without their cases -/

/-- **Two catalogs are the same but for the cases** that are stored with their versions. -/
def SameButCases (c c' : Catalog) : Prop :=
  ∀ id, (c.rules.get? id).map (List.map RuleVersion.withoutCases) =
    (c'.rules.get? id).map (List.map RuleVersion.withoutCases)

theorem SameButCases.symm {c c' : Catalog} (h : SameButCases c c') : SameButCases c' c :=
  fun id => (h id).symm

/-- A choice among versions does not look at their cases. -/
theorem select_withoutCases (versions : List RuleVersion) (version : Option Nat)
    (preferLatest : Bool) :
    select (versions.map RuleVersion.withoutCases) version preferLatest =
      (select versions version preferLatest).map RuleVersion.withoutCases := by
  rcases version with _ | number
  · have hpublished : publishedOf (versions.map RuleVersion.withoutCases) =
        (publishedOf versions).map RuleVersion.withoutCases := List.find?_map
    rw [select, select, hpublished, List.getLast?_map]
    rcases preferLatest with _ | _
    · exact Option.map_or.symm
    · rfl
  · exact List.find?_map

variable {c c' : Catalog} {id : String} {number : Nat} {versions : List RuleVersion}
  {version : Option Nat} {preferLatest : Bool}

theorem get_of_get?_none (h : c.rules.get? id = none) :
    c.get id version preferLatest = .error (.ruleNotFound id) := by
  unfold Catalog.get
  rw [Catalog.versions, h]
  rfl

/-- A lookup in a rule that is there gives the version that is chosen, if there is one. -/
theorem exists_get_eq (id : String) (version : Option Nat) (preferLatest : Bool) :
    ∃ err, ∀ {c : Catalog} {versions : List RuleVersion}, c.rules.get? id = some versions →
      c.get id version preferLatest =
        (select versions version preferLatest).elim (.error err) .ok := by
  rcases version with _ | number
  · refine ⟨.ruleNotFound id, fun h => ?_⟩
    rw [Catalog.get, Catalog.versions, h]
    dsimp only [bind, Except.bind]
    rcases select _ none preferLatest with _ | found <;> rfl
  · refine ⟨.versionNotFound id number, fun h => ?_⟩
    rw [Catalog.get, Catalog.versions, h]
    dsimp only [bind, Except.bind]
    rcases select _ (some number) preferLatest with _ | found <;> rfl

/-- **Lookups agree** on what is left without the cases. -/
theorem SameButCases.get (h : SameButCases c c') (id : String) (version : Option Nat)
    (preferLatest : Bool) :
    (c.get id version preferLatest).map RuleVersion.withoutCases =
      (c'.get id version preferLatest).map RuleVersion.withoutCases := by
  obtain ⟨err, hget⟩ := exists_get_eq id version preferLatest
  have hsame := h id
  rcases hc : c.rules.get? id with _ | versions
  · rcases hc' : c'.rules.get? id with _ | versions'
    · rw [get_of_get?_none hc, get_of_get?_none hc']
    · rw [hc, hc'] at hsame
      cases hsame
  · rcases hc' : c'.rules.get? id with _ | versions'
    · rw [hc, hc'] at hsame
      cases hsame
    · rw [hc, hc'] at hsame
      have hselect : (select versions version preferLatest).map RuleVersion.withoutCases =
          (select versions' version preferLatest).map RuleVersion.withoutCases := by
        rw [← select_withoutCases, Option.some.inj hsame, select_withoutCases]
      rw [hget hc, hget hc']
      rcases hfound : select versions version preferLatest with _ | v
      · rw [hfound] at hselect
        rw [Option.map_eq_none_iff.mp hselect.symm]
      · rw [hfound] at hselect
        obtain ⟨w, hw, hvw⟩ := Option.map_eq_some_iff.mp hselect.symm
        rw [hw]
        exact congrArg Except.ok hvw.symm

/-! ## Replacing cases -/

variable {cases : List RegressionCase} {now : Timestamp}

/-- Cases may replace others if there are any and all have names. -/
theorem checkReplacement_eq_ok (hcases : cases ≠ []) (hnames : ∀ c ∈ cases, c.name ≠ "") :
    checkReplacement cases = .ok () := by
  rw [checkReplacement, if_neg (mt List.isEmpty_iff.mp hcases), checkCaseNames_eq_ok_iff.mpr hnames]
  rfl

/-- **To replace cases changes nothing else.** -/
theorem sameButCases_of_replaceCases {v : RuleVersion}
    (h : c.replaceCases id number cases now = .ok (v, c')) : SameButCases c c' := by
  obtain ⟨hget, front, w, back, hsplit, -, -, -, rfl⟩ := change_eq_ok h
  intro other
  rw [get?_withHistory]
  by_cases hother : other = id
  · rw [if_pos hother, hother, hget]
    refine congrArg some (map_of_change (fun _ => rfl) hsplit ?_).symm
    rfl
  · rw [if_neg hother]

/-- **A lookup then finds the version with these cases.** -/
theorem get_of_replaceCases {v : RuleVersion}
    (h : c.replaceCases id number cases now = .ok (v, c')) (preferLatest : Bool) :
    c'.get id (some number) preferLatest = .ok v ∧ v.regressionCases = cases := by
  obtain ⟨-, front, w, back, -, hfront, hw, rfl, rfl⟩ := change_eq_ok h
  obtain ⟨err, hget⟩ := exists_get_eq id (some number) preferLatest
  refine ⟨?_, rfl⟩
  have hfound : select (front ++ { w with regressionCases := cases, updatedAt := now } :: back)
      (some number) preferLatest = some { w with regressionCases := cases, updatedAt := now } := by
    rw [select, List.find?_append, List.find?_eq_none.mpr (by simpa using hfront), Option.none_or]
    exact List.find?_cons_of_pos (beq_iff_eq.mpr hw)
  rw [hget (by rw [get?_withHistory, if_pos rfl]), hfound]
  rfl

end Catalog

/-! ## Testing a version -/

/-- Of a version a run of cases does not use the cases. -/
theorem Journal.runCases_withoutCases (src : Sources) (rule : RuleVersion) :
    ∀ (cases : List RegressionCase) (j : Journal),
      j.runCases src rule.withoutCases cases = j.runCases src rule cases
  | [], _ => rfl
  | c :: rest, j => by
    have hdefinition : rule.withoutCases.definition = rule.definition := rfl
    rw [runCases, runCases, hdefinition]
    rcases evaluate rule.definition c.context with err | evaluation
    · rfl
    · dsimp only
      rw [runCases_withoutCases src rule rest]
      rfl

/-- Two records of the same: they differ at most in their id and in the time they were made. -/
def Artifact.SameRecord (a b : Artifact) : Prop :=
  b = { a with id := b.id, createdAt := b.createdAt }

namespace Engine

variable {src : Sources} {e e' : Engine} {r : RegressionRequest} {rule : RuleVersion}
  {cases : List RegressionCase}

/-- Tests a version against cases. -/
def test (src : Sources) (rule : RuleVersion) (cases : List RegressionCase) (e : Engine) :
    Except EngineError RegressionReport × Engine :=
  if cases.isEmpty then (.error (.noRegressionCases rule.stableId rule.version), e)
  else (((e.journal.runCases src rule cases).1.map (report rule)).mapError .eval,
    ⟨e.catalog, (e.journal.runCases src rule cases).2⟩)

/-- **A regression run tests what it finds, without regard to its cases**, against the cases that
are chosen. -/
theorem regress_eq_test (hget : e.catalog.get r.stableId r.version r.preferLatest = .ok rule) :
    e.regress src r = e.test src rule.withoutCases (r.chosen rule) := by
  rw [regress_eq hget, test, Journal.runCases_withoutCases]
  rfl

/-- What a test comes to does not depend on the journal. -/
theorem fst_test_eq (src : Sources) (rule : RuleVersion) (cases : List RegressionCase)
    (e e' : Engine) : (e.test src rule cases).1 = (e'.test src rule cases).1 := by
  rw [test, test]
  by_cases hempty : cases.isEmpty = true
  · rw [if_pos hempty, if_pos hempty]
  · rw [if_neg hempty, if_neg hempty, Journal.fst_runCases, Journal.fst_runCases]

/-- **Nor does what it records**, up to ids and times. -/
theorem exists_records_test (src : Sources) (rule : RuleVersion) (cases : List RegressionCase)
    (e e' : Engine) : ∃ made made',
      (e.test src rule cases).2.journal.store.artifacts = e.journal.store.artifacts ++ made ∧
      (e'.test src rule cases).2.journal.store.artifacts = e'.journal.store.artifacts ++ made' ∧
      List.Forall₂ Artifact.SameRecord made made' := by
  rw [test, test]
  by_cases hempty : cases.isEmpty = true
  · rw [if_pos hempty, if_pos hempty]
    exact ⟨[], [], (List.append_nil _).symm, (List.append_nil _).symm, .nil⟩
  · rw [if_neg hempty, if_neg hempty]
    obtain ⟨made, hmade, hrecords⟩ := e.journal.runCases_store src rule cases
    obtain ⟨made', hmade', hrecords'⟩ := e'.journal.runCases_store src rule cases
    refine ⟨made, made', ?_, ?_, ?_⟩
    · rw [hmade, ArtifactStore.artifacts_recordAll]
    · rw [hmade', ArtifactStore.artifacts_recordAll]
    · exact forall₂_of_common hrecords hrecords' fun _ _ _ ha hb => ha.eq_with hb

/-- **Runs agree that test against the same cases**, in catalogs that are the same but for cases:
for some version and some cases, or with some error, both do what this comes to. -/
theorem regress_cases_of_sameButCases (src : Sources) (h : e.catalog.SameButCases e'.catalog)
    (hchosen : ∀ rule rule', e.catalog.get r.stableId r.version r.preferLatest = .ok rule →
      e'.catalog.get r.stableId r.version r.preferLatest = .ok rule' →
        r.chosen rule = RegressionRequest.chosen { r with cases := cases } rule') :
    (∃ err, e.regress src r = (.error err, e) ∧
      e'.regress src { r with cases := cases } = (.error err, e')) ∨
    ∃ rule tests, e.regress src r = e.test src rule tests ∧
      e'.regress src { r with cases := cases } = e'.test src rule tests := by
  have hget := h.get r.stableId r.version r.preferLatest
  rcases hrule : e.catalog.get r.stableId r.version r.preferLatest with err | rule
  · rcases hrule' : e'.catalog.get r.stableId r.version r.preferLatest with err' | rule'
    · rw [hrule, hrule'] at hget
      cases hget
      exact .inl ⟨.catalog err, by rw [regress, hrule], by rw [regress, hrule']⟩
    · rw [hrule, hrule'] at hget
      cases hget
  · rcases hrule' : e'.catalog.get r.stableId r.version r.preferLatest with err' | rule'
    · rw [hrule, hrule'] at hget
      cases hget
    · rw [hrule, hrule'] at hget
      have hsame : rule.withoutCases = rule'.withoutCases := Except.ok.inj hget
      refine .inr ⟨rule.withoutCases, r.chosen rule, regress_eq_test hrule, ?_⟩
      rw [hsame, hchosen rule rule' hrule hrule']
      exact regress_eq_test hrule'

/-- So they come to the same and record the same, and from equal journals go on with equal ones. -/
theorem regress_agree (src : Sources) (r : RegressionRequest) (cases : List RegressionCase)
    (h : e.catalog.SameButCases e'.catalog)
    (hchosen : ∀ rule rule', e.catalog.get r.stableId r.version r.preferLatest = .ok rule →
      e'.catalog.get r.stableId r.version r.preferLatest = .ok rule' →
        r.chosen rule = RegressionRequest.chosen { r with cases := cases } rule') :
    let run := e.regress src r
    let run' := e'.regress src { r with cases := cases }
    run.1 = run'.1 ∧
      (∃ made made', run.2.journal.store.artifacts = e.journal.store.artifacts ++ made ∧
        run'.2.journal.store.artifacts = e'.journal.store.artifacts ++ made' ∧
        List.Forall₂ Artifact.SameRecord made made') ∧
      (e.journal = e'.journal → run.2.journal = run'.2.journal) := by
  intro run run'
  obtain ⟨err, hrun, hrun'⟩ | ⟨rule, tests, hrun, hrun'⟩ :=
    regress_cases_of_sameButCases src h hchosen
  · simp only [run, run', hrun, hrun']
    exact ⟨trivial, ⟨[], [], (List.append_nil _).symm, (List.append_nil _).symm, .nil⟩, id⟩
  · simp only [run, run', hrun, hrun']
    refine ⟨fst_test_eq src rule tests e e', exists_records_test src rule tests e e', ?_⟩
    intro hjournal
    rw [test, test, hjournal]
    split
    · exact hjournal
    · rfl

theorem chosen_of_cases (h : r.cases ≠ []) (rule : RuleVersion) : r.chosen rule = r.cases :=
  if_neg (mt List.isEmpty_iff.mp h)

/-- **A run with stored cases does what a run does that brings them along.** -/
theorem regress_stored (src : Sources) {id : String} {number : Nat} {latest : Bool}
    (h : e.catalog.SameButCases e'.catalog) (hcases : cases ≠ [])
    (hstored : ∀ rule, e.catalog.get id (some number) latest = .ok rule →
      rule.regressionCases = cases) :
    let stored := e.regress src ⟨id, some number, latest, []⟩
    let adHoc := e'.regress src ⟨id, some number, latest, cases⟩
    stored.1 = adHoc.1 ∧
      ∃ made made', stored.2.journal.store.artifacts = e.journal.store.artifacts ++ made ∧
        adHoc.2.journal.store.artifacts = e'.journal.store.artifacts ++ made' ∧
        List.Forall₂ Artifact.SameRecord made made' := by
  obtain ⟨hanswer, hrecords, -⟩ := regress_agree src ⟨id, some number, latest, []⟩ cases h
    fun rule rule' hrule _ => (hstored rule hrule).trans
      (chosen_of_cases (r := ⟨id, some number, latest, cases⟩) hcases rule').symm
  exact ⟨hanswer, hrecords⟩

/-- **A run that brings cases along does not depend on those that are stored.** -/
theorem regress_of_cases (src : Sources) (h : e.catalog.SameButCases e'.catalog)
    (hcases : r.cases ≠ []) : (e.regress src r).1 = (e'.regress src r).1 ∧
      (e.journal = e'.journal → (e.regress src r).2.journal = (e'.regress src r).2.journal) := by
  obtain ⟨hanswer, -, hjournal⟩ := regress_agree src r r.cases h
    fun rule rule' _ _ => (chosen_of_cases hcases rule).trans (chosen_of_cases hcases rule').symm
  exact ⟨hanswer, hjournal⟩

/-- **Cases can be replaced, and are then those of the version.** -/
theorem exists_replaceCases (src : Sources) {id : String} {number : Nat} {latest : Bool}
    (hget : e.catalog.get id (some number) latest = .ok rule) (hcases : cases ≠ [])
    (hnames : ∀ c ∈ cases, c.name ≠ "") :
    ∃ v e', e.replaceCases src id number cases = (.ok v, e') ∧
      e'.journal.store = e.journal.store ∧ e.catalog.SameButCases e'.catalog ∧
      ∀ latest, e'.catalog.get id (some number) latest = .ok v ∧ v.regressionCases = cases := by
  obtain ⟨v, c, hreplace⟩ : ∃ v c, e.catalog.replaceCases id number cases
      (src.time e.journal.readings) = .ok (v, c) :=
    Catalog.exists_change_of_get hget (fun _ => rfl) _
  refine ⟨v, ⟨c, (e.journal.readClock src).2⟩, ?_, rfl,
    Catalog.sameButCases_of_replaceCases hreplace, Catalog.get_of_replaceCases hreplace⟩
  rw [replaceCases, Catalog.checkReplacement_eq_ok hcases hnames]
  refine (onCatalog_eq_settle (Catalog.Work.carryOut_replaceCases ..)).trans ?_
  exact congrArg (settle _) hreplace

/-! ## Without cases -/

theorem chosen_eq_nil_iff : r.chosen rule = [] ↔ r.cases = [] ∧ rule.regressionCases = [] := by
  rw [RegressionRequest.chosen]
  by_cases hempty : r.cases.isEmpty = true
  · rw [if_pos hempty]
    exact (and_iff_right (List.isEmpty_iff.mp hempty)).symm
  · rw [if_neg hempty]
    have hne : r.cases ≠ [] := mt List.isEmpty_iff.mpr hempty
    exact iff_of_false hne fun h => hne h.1

/-- **A run complains of missing cases** if it finds its version and neither side has any. -/
theorem regress_noRegressionCases_iff {id : String} {number : Nat} :
    (e.regress src r).1 = .error (.noRegressionCases id number) ↔
      ∃ rule, e.catalog.get r.stableId r.version r.preferLatest = .ok rule ∧
        r.cases = [] ∧ rule.regressionCases = [] ∧ rule.stableId = id ∧ rule.version = number := by
  rcases hget : e.catalog.get r.stableId r.version r.preferLatest with err | rule
  · rw [regress, hget]
    refine iff_of_false (fun h => ?_) ?_
    · cases h
    · rintro ⟨_, hrule, -⟩
      cases hrule
  · rw [regress_eq hget]
    by_cases hempty : (r.chosen rule).isEmpty = true
    · obtain ⟨hnone, hnone'⟩ := chosen_eq_nil_iff.mp (List.isEmpty_iff.mp hempty)
      rw [if_pos hempty]
      simp [hnone, hnone']
    · rw [if_neg hempty]
      refine iff_of_false (fun h => ?_) ?_
      · dsimp only at h
        rcases houtcomes : (e.journal.runCases src rule (r.chosen rule)).1 with err | outcomes
        all_goals
          rw [houtcomes] at h
          cases h
      · rintro ⟨_, hrule, hnone, hnone', -⟩
        cases hrule
        exact hempty (List.isEmpty_iff.mpr (chosen_eq_nil_iff.mpr ⟨hnone, hnone'⟩))

/-- **Such a run leaves everything as it is**, and so does one that does not find its version. -/
theorem snd_regress_of_failure (src : Sources)
    (h : (e.catalog.get r.stableId r.version r.preferLatest).isOk = false ∨
      ∃ id number, (e.regress src r).1 = .error (.noRegressionCases id number)) :
    (e.regress src r).2 = e := by
  obtain ⟨err, hfails⟩ | ⟨rule, hget, hchosen, -⟩ := regress_cases src r e
  · rw [hfails]
  · exfalso
    obtain hfound | ⟨id, number, hnone⟩ := h
    · rw [hget] at hfound
      cases hfound
    · obtain ⟨rule', hget', hcases, hstored, -⟩ := regress_noRegressionCases_iff.mp hnone
      obtain rfl : rule = rule' := Except.ok.inj (hget.symm.trans hget')
      exact hchosen (chosen_eq_nil_iff.mpr ⟨hcases, hstored⟩)

end Engine

/-! ## Sessions -/

namespace Session

variable {ι : Type} [DecidableEq ι]

theorem engine_withEngine (s : Session ι) (who : ι) (e : Engine) :
    (s.withEngine who e).engine who = e := by
  have hcatalog : (s.withEngine who e).catalogs who = e.catalog := if_pos rfl
  exact congrArg (Engine.mk · e.journal) hcatalog

/-- A session answers as its engine, and goes on with its journal. -/
theorem perform_regress {s : Session ι} {who : ι} {e : Engine} (h : s.engine who = e)
    (src : Sources) (r : RegressionRequest) :
    (s.perform src who (.regress r)).1 = (e.regress src r).1.map .report ∧
      (s.perform src who (.regress r)).2.journal = (e.regress src r).2.journal := by
  subst h
  exact ⟨rfl, rfl⟩

theorem perform_regress_error_iff {src : Sources} {s : Session ι} {who : ι}
    {r : RegressionRequest} {err : EngineError} :
    (s.perform src who (.regress r)).1 = .error err ↔
      ((s.engine who).regress src r).1 = .error err := by
  rw [(perform_regress rfl src r).1]
  rcases ((s.engine who).regress src r).1 with err' | report
  · exact Iff.of_eq (by simp [Except.map])
  · exact iff_of_false (fun h => by cases h) (fun h => by cases h)

/-- A regression run leaves all catalogs alone. -/
theorem catalogs_regress (src : Sources) (s : Session ι) (who : ι) (r : RegressionRequest) :
    (s.perform src who (.regress r)).2.catalogs = s.catalogs := by
  funext i
  by_cases hi : i = who
  · subst hi
    exact (if_pos rfl).trans (Engine.catalog_regress r (s.engine i))
  · exact catalogs_perform_of_ne hi src _ s

/-- **Cases can be replaced in a session.**  Only its engine changes, in the stored cases. -/
theorem exists_perform_replaceCases (src : Sources) (s : Session ι) (who : ι) {id : String}
    {number : Nat} {preferred : Bool} {rule : RuleVersion} {cases : List RegressionCase}
    (hget : (s.catalogs who).get id (some number) preferred = .ok rule) (hcases : cases ≠ [])
    (hnames : ∀ c ∈ cases, c.name ≠ "") :
    ∃ v e', s.perform src who (.replaceCases id number cases) =
        (.ok (.version v), s.withEngine who e') ∧
      e'.journal.store = s.journal.store ∧ (s.catalogs who).SameButCases e'.catalog ∧
      ∀ latest, e'.catalog.get id (some number) latest = .ok v ∧ v.regressionCases = cases := by
  obtain ⟨v, e', hreplace, hstore, hsame, hfound⟩ :=
    Engine.exists_replaceCases src (e := s.engine who) hget hcases hnames
  have hperform : (s.engine who).perform src (.replaceCases id number cases) =
      (.ok (.version v), e') := by
    rw [Engine.perform, hreplace]
    rfl
  refine ⟨v, e', ?_, hstore, hsame, hfound⟩
  rw [perform, hperform]

/-- **Stored cases and cases that come with the request are interchangeable**, in every session.

Where the catalog finds a version by its number, cases of which there are some, all with names, can
replace those of the version.  A run with the stored cases then answers as a run with these cases
would have answered before, and the two record the same, up to ids and times.

Cases that come with the request make the stored ones irrelevant: in a session with the same
journal, and the same catalog but for the cases that are stored in it, the run answers and records
the same.  A run leaves all catalogs alone.

A run complains of missing cases if and only if its version is found and there are none on either
side; a lookup that fails gives its error, whatever cases there are.  Nothing is recorded then, and
the session stays as it is. -/
theorem cases_interchangeable (src : Sources) (s : Session ι) (who : ι) :
    (∀ id number preferred rule cases,
      (s.catalogs who).get id (some number) preferred = .ok rule → cases ≠ [] →
      (∀ c ∈ cases, c.name ≠ "") →
      let replaced := s.perform src who (.replaceCases id number cases)
      (∃ v, replaced.1 = .ok (.version v)) ∧
      ∀ latest,
        let stored := replaced.2.perform src who (.regress ⟨id, some number, latest, []⟩)
        let adHoc := s.perform src who (.regress ⟨id, some number, latest, cases⟩)
        stored.1 = adHoc.1 ∧ ∃ made made',
          stored.2.journal.store.artifacts = s.journal.store.artifacts ++ made ∧
          adHoc.2.journal.store.artifacts = s.journal.store.artifacts ++ made' ∧
          List.Forall₂ Artifact.SameRecord made made') ∧
    (∀ r : RegressionRequest, r.cases ≠ [] → ∀ t : Session ι, t.journal = s.journal →
      (t.catalogs who).SameButCases (s.catalogs who) →
      (t.perform src who (.regress r)).1 = (s.perform src who (.regress r)).1 ∧
        (t.perform src who (.regress r)).2.journal =
          (s.perform src who (.regress r)).2.journal) ∧
    ∀ r : RegressionRequest,
      let run := s.perform src who (.regress r)
      let found := (s.catalogs who).get r.stableId r.version r.preferLatest
      run.2.catalogs = s.catalogs ∧
      (∀ id number, run.1 = .error (.noRegressionCases id number) ↔
        ∃ rule, found = .ok rule ∧ r.cases = [] ∧ rule.regressionCases = [] ∧
          rule.stableId = id ∧ rule.version = number) ∧
      (∀ err, found = .error err → run.1 = .error (.catalog err)) ∧
      (found.isOk = false ∨ (∃ id number, run.1 = .error (.noRegressionCases id number)) →
        run.2 = s) := by
  refine ⟨?_, ?_, ?_⟩
  · intro id number preferred rule cases hget hcases hnames replaced
    obtain ⟨v, e', hreplaced, hstore, hsame, hfound⟩ :=
      exists_perform_replaceCases src s who hget hcases hnames
    refine ⟨⟨v, congrArg Prod.fst hreplaced⟩, fun latest => ?_⟩
    have hafter : replaced.2.engine who = e' := by
      simp only [replaced, hreplaced, engine_withEngine]
    have hstored (rule : RuleVersion) (hrule : e'.catalog.get id (some number) latest = .ok rule) :
        rule.regressionCases = cases := by
      obtain ⟨hv, hv'⟩ := hfound latest
      rwa [Except.ok.inj (hrule.symm.trans hv)]
    have hcatalogs : e'.catalog.SameButCases (s.engine who).catalog := hsame.symm
    obtain ⟨hanswer, made, made', hmade, hmade', hrecords⟩ :=
      Engine.regress_stored src hcatalogs hcases hstored
    obtain ⟨hrun, hjournal⟩ := perform_regress hafter src ⟨id, some number, latest, []⟩
    refine ⟨?_, made, made', ?_, hmade', hrecords⟩
    · rw [hrun, hanswer]
      rfl
    · rw [hjournal, hmade, hstore]
  · intro r hcases t hjournal hsame
    have hcatalogs : (t.engine who).catalog.SameButCases (s.engine who).catalog := hsame
    obtain ⟨hanswer, hgoes⟩ := Engine.regress_of_cases src hcatalogs hcases
    exact ⟨congrArg (Except.map Answer.report) hanswer, hgoes hjournal⟩
  · intro r run found
    refine ⟨catalogs_regress src s who r, fun id number => ?_, fun err hfound => ?_, fun h => ?_⟩
    · exact perform_regress_error_iff.trans Engine.regress_noRegressionCases_iff
    · have hget : (s.engine who).catalog.get r.stableId r.version r.preferLatest = .error err :=
        hfound
      rw [perform_regress_error_iff, Engine.regress, hget]
    · have hstays : ((s.engine who).regress src r).2 = s.engine who := by
        refine Engine.snd_regress_of_failure src (h.imp_right ?_)
        exact Exists.imp fun id => Exists.imp fun number => perform_regress_error_iff.mp
      have hafter : run.2 = s.withEngine who ((s.engine who).regress src r).2 := rfl
      rw [hafter, hstays, withEngine_engine]

/-- A rule that fails where it is given no list.  It is tested against two cases, the second of which
gives none, once stored and once brought along; against a case brought along, with and without a
stored one; and against no case at all. -/
theorem cases_interchangeable_brokenOff :
    let definition : Value := .object [("bl_none", .array [.object [("var", .string "xs")],
      .object [("var", .string "item")]])]
    let given : RegressionCase := ⟨"given", .object [("xs", .array [.null])], .bool true, none⟩
    let broken : RegressionCase := ⟨"broken", .object [("xs", .bool true)], .bool true, none⟩
    let draft (cases : List RegressionCase) : RuleDraft :=
      ⟨"none-set", "None set", none, definition, KeyMap.empty, none, cases⟩
    let session (cases : List RegressionCase) : Session Bool :=
      ⟨fun _ => (Catalog.empty.append (draft cases) ⟨0, 0⟩).2, Journal.empty⟩
    let src : Sources := ⟨fun n => ⟨n, 0⟩, fun n => toString n⟩
    let s := session []
    let stored := (s.perform src true (.replaceCases "none-set" 1 [given, broken])).2.perform src
      true (.regress ⟨"none-set", some 1, false, []⟩)
    let adHoc := s.perform src true (.regress ⟨"none-set", some 1, false, [given, broken]⟩)
    (stored.1 = adHoc.1 ∧ ∃ a b, stored.2.journal.store.artifacts = [a] ∧
      adHoc.2.journal.store.artifacts = [b] ∧ a.SameRecord b) ∧
    ((session [broken]).perform src true (.regress ⟨"none-set", none, false, [given]⟩)).1 =
      (s.perform src true (.regress ⟨"none-set", none, false, [given]⟩)).1 ∧
    (s.perform src true (.regress ⟨"none-set", none, false, []⟩)).1 =
      .error (.noRegressionCases "none-set" 1) ∧
    (s.perform src true (.regress ⟨"none-set", none, false, []⟩)).2 = s := by
  intro definition given broken draft session src s stored adHoc
  obtain ⟨hreplaced, hirrelevant, hmissing⟩ := cases_interchangeable src s true
  obtain ⟨-, hruns⟩ := hreplaced "none-set" 1 false _ [given, broken] rfl (List.cons_ne_nil _ _)
    (by simp [given, broken])
  obtain ⟨hanswer, made, made', hmade, hmade', hrecords⟩ := hruns false
  have hone : made'.length = 1 := (congrArg List.length hmade').symm
  obtain ⟨b, rfl⟩ := List.length_eq_one_iff.mp hone
  obtain ⟨a, _, hab, hnil, rfl⟩ := List.forall₂_cons_right_iff.mp hrecords
  obtain rfl := List.forall₂_nil_right_iff.mp hnil
  have hsame : ((session [broken]).catalogs true).SameButCases (s.catalogs true) := by
    intro id
    by_cases hid : id = "none-set"
    · subst hid
      rfl
    · simp only [session, s, Catalog.append_eq, Catalog.get?_withHistory, draft, if_neg hid]
  obtain ⟨-, hnone, -, hstays⟩ := hmissing ⟨"none-set", none, false, []⟩
  have hcomplains := (hnone "none-set" 1).mpr ⟨_, rfl, rfl, rfl, rfl, rfl⟩
  exact ⟨⟨hanswer, a, b, hmade, hmade', hab⟩,
    (hirrelevant ⟨"none-set", none, false, [given]⟩ (List.cons_ne_nil _ _) (session [broken]) rfl
      hsame).1,
    hcomplains, hstays (.inr ⟨_, _, hcomplains⟩)⟩

end Session

end DecisionRules
