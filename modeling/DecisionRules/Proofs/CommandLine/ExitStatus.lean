import DecisionRules.Proofs.CommandLine.Regression

/-!
# Proofs/CommandLine/ExitStatus — the exit status of a regression run is its verdict

A regression run may break off early: at an entry of the catalog file that is refused, or at a rule
whose test ends in an error.  Whether it exits with success is still a matter of each entry and each
rule on its own.  A file that is loaded to its end has only entries that are accepted
(`CommandLine.accepted_of_loadEntries`).  And since testing a rule leaves the catalog alone, the
rules that a run gets to all pass exactly if all its targets would, each tested first
(`CommandLine.forall_attempts_iff`).

How the run is to be shown, or whether at all, is decided when there is nothing left to go wrong
(`CommandLine.regress_cases`).
-/

namespace DecisionRules

/-- **A test is passed as a whole** if every case goes as expected. -/
theorem RuleVersion.allPassed_iff_of_tested {v : RuleVersion} {report : RegressionReport}
    (h : v.tested = .ok report) :
    report.allPassed = true ↔ ∀ c ∈ report.cases, c.success = true := by
  rw [tested] at h
  by_cases hempty : v.regressionCases.isEmpty = true
  · rw [if_pos hempty] at h
    cases h
  · rw [if_neg hempty] at h
    rcases houtcomes : caseOutcomes v.definition v.regressionCases with err | outcomes
    · rw [houtcomes] at h
      cases h
    · rw [houtcomes] at h
      obtain rfl := Except.ok.inj h
      simp [RegressionReport.allPassed, List.countP_eq_zero]

namespace CommandLine

open CatalogEntry

/-! ## Loading -/

/-- **A file that is loaded** has only entries that are accepted. -/
theorem accepted_of_loadEntries {src : Sources} {engine : Engine} :
    ∀ {entries : List CatalogEntry} {e : Engine}, loadEntries src entries e = .ok engine →
      ∀ entry ∈ entries, entry.draft.check = .ok () ∧ validate entry.draft.definition = .ok ()
  | [], _, _ => fun _ hmem => absurd hmem List.not_mem_nil
  | entry :: rest, e, h => by
    rw [loadEntries] at h
    rcases hcreate : e.create src entry.draft with ⟨err | made, e'⟩
    · rw [hcreate] at h
      cases h
    · rw [hcreate] at h
      have haccepted := (Engine.create_ok_iff src entry.draft e).mp ⟨made, by rw [hcreate]⟩
      refine List.forall_mem_cons.mpr ⟨haccepted, ?_⟩
      by_cases hpublish : entry.publish = true
      · simp only [hpublish, if_true] at h
        rcases hset : e'.publish src made.stableId made.version none with ⟨err | v, e''⟩
        · rw [hset] at h
          cases h
        · rw [hset] at h
          exact accepted_of_loadEntries h
      · simp only [hpublish] at h
        exact accepted_of_loadEntries h

/-- **What is loaded of a file** is the catalog of all its entries. -/
theorem loaded_of_loadEntries {src : Sources} {entries : List CatalogEntry} {engine : Engine}
    (h : loadEntries src entries Engine.empty = .ok engine) : Loaded entries engine.catalog := by
  have hempty : Loaded [] Engine.empty.catalog := loaded_nil
  obtain ⟨engine', hload, hloaded⟩ :=
    exists_loadEntries src [] hempty (accepted_of_loadEntries h)
  obtain rfl : engine = engine' := Except.ok.inj (h.symm.trans hload)
  exact hloaded

/-! ## Testing -/

/-- What does not keep a run from success: a test that is passed, or one of a rule without cases
that was not asked for. -/
def Selection.Passes (s : Selection) (outcome : Except EngineError RegressionReport) : Prop :=
  (∃ report, outcome = .ok report ∧ report.allPassed = true) ∨
    s.rule = none ∧ ∃ id number, outcome = .error (.noRegressionCases id number)

/-- It does not end a run, and what it reports is a success. -/
theorem Selection.passes_iff (s : Selection) (outcome : Except EngineError RegressionReport) :
    s.Passes outcome ↔
      s.ending? outcome = none ∧ ∀ report, outcome = .ok report → report.allPassed = true := by
  rcases outcome with err | report
  · rcases err with _ | _ | _ | ⟨id, number⟩ | _
    case noRegressionCases => simp [Passes, ending?]
    all_goals simp [Passes, ending?]
  · simp [Passes, ending?]

/-- **A run exits with success** if all that it got to pass. -/
theorem code_shown_eq_zero_iff (i : Invocation) (s : Selection) (log : List Attempt) :
    (i.shown s log).code = 0 ↔ ∀ attempt ∈ log, s.Passes attempt.outcome := by
  have hreports : (reports log).all (·.allPassed) = true ↔ ∀ attempt ∈ log, ∀ report,
      attempt.outcome = .ok report → report.allPassed = true := by
    have hmem (report : RegressionReport) :
        report ∈ reports log ↔ ∃ attempt ∈ log, attempt.outcome = .ok report := by
      rw [reports, List.mem_filterMap]
      refine exists_congr fun attempt => and_congr_right fun _ => ?_
      rcases attempt.outcome with err | _ <;> simp [Except.toOption]
    simp only [List.all_eq_true, hmem]
    refine ⟨fun h attempt hattempt report hreport => h report ⟨attempt, hattempt, hreport⟩, ?_⟩
    rintro h report ⟨attempt, hattempt, hreport⟩
    exact h attempt hattempt report hreport
  have hended : s.ended? log = none ↔ ∀ attempt ∈ log, s.ending? attempt.outcome = none :=
    List.findSome?_eq_none_iff
  simp only [Selection.passes_iff, forall_and, ← hended, ← hreports]
  rw [Invocation.shown]
  rcases s.ended? log with _ | err
  · simp
  · simp [Invocation.failure]

variable {src : Sources} {s : Selection}

/-- Testing leaves the catalog alone, so it makes no difference to later tests. -/
theorem Selection.fst_test_eq {e e' : Engine} (h : e.catalog = e'.catalog) (id : String) :
    (s.test src id e).1 = (s.test src id e').1 := by
  rw [test, test, Engine.fst_regress, Engine.fst_regress, h]

/-- **The rules that a run gets to all pass** exactly if all its targets do. -/
theorem forall_attempts_iff : ∀ {ids : List String} {e : Engine},
    (∀ attempt ∈ attempts src s ids e, s.Passes attempt.outcome) ↔
      ∀ id ∈ ids, s.Passes (s.test src id e).1
  | [], _ => ⟨fun _ _ hmem => absurd hmem List.not_mem_nil,
      fun _ _ hmem => absurd hmem List.not_mem_nil⟩
  | id :: rest, e => by
    rw [attempts, List.forall_mem_cons, List.forall_mem_cons]
    refine and_congr_right fun hpasses => ?_
    have hgoes : s.ending? (s.test src id e).1 = none := ((s.passes_iff _).mp hpasses).1
    rw [hgoes, Option.isSome_none, if_neg Bool.false_ne_true, forall_attempts_iff]
    have hcatalog : (s.test src id e).2.catalog = e.catalog := Engine.catalog_regress _ e
    simp only [Selection.fst_test_eq hcatalog]

/-- The rules that are targets of a run on a file that is loaded. -/
theorem mem_targets_iff {entries : List CatalogEntry} {e : Engine} (h : Loaded entries e.catalog)
    {id : String} : id ∈ s.targets e ↔ s.rule = some id ∨
      s.rule = none ∧ ∃ entry ∈ entries, entry.draft.stableId = id := by
  rcases hrule : s.rule with _ | wanted
  · rw [(targets_of_loaded h hrule).2 id]
    simp
  · rw [Selection.targets, hrule]
    simp [eq_comm]

/-- A test is passed if every case of its report goes as expected. -/
theorem Selection.passes_test_iff {id : String} {e : Engine} : s.Passes (s.test src id e).1 ↔
    (∃ report, (s.test src id e).1 = .ok report ∧ ∀ c ∈ report.cases, c.success = true) ∨
      s.rule = none ∧ ∃ untested number,
        (s.test src id e).1 = .error (.noRegressionCases untested number) := by
  refine or_congr_left (exists_congr fun report => and_congr_right fun hreport => ?_)
  rw [test, Engine.fst_regress] at hreport
  rcases hget : e.catalog.get id s.version s.preferLatest with err | v
  · rw [hget] at hreport
    cases hreport
  · rw [hget] at hreport
    exact RuleVersion.allPassed_iff_of_tested hreport

/-! ## The exit status -/

/-- **A run ends with a message or shows reports**, and which it is does not depend on how it is
shown. -/
theorem regress_cases [Rounding] (around : Surroundings) (path : String) (s : Selection) :
    (∃ message, ∀ i : Invocation, i.regress around path s = i.failure message) ∨
      ∃ found : List RegressionReport, ∀ i : Invocation, i.regress around path s =
        ⟨if found.all (·.allPassed) then 0 else 1, i.say (i.reportsText found), ""⟩ := by
  simp only [Invocation.regress]
  rcases readFile around "catalog" path (.list (.record .catalogEntry))
    (listOfJson? CatalogEntry.ofJson?) with message | entries
  · exact .inl ⟨message, fun _ => rfl⟩
  rcases hload : loadEntries around.sources entries Engine.empty with err | engine
  · exact .inl ⟨_, fun i => by simp only [hload]; rfl⟩
  rcases hfound : runTargets around.sources s (s.targets engine) engine with err | found
  · exact .inl ⟨_, fun i => by simp only [hload, hfound]; rfl⟩
  · exact .inr ⟨found, fun i => by simp only [hload, hfound]⟩

/-- **The status is zero or one, however the run is shown**, and a quiet run writes nothing to the
standard output. -/
theorem code_regress [Rounding] (around : Surroundings) (path : String) (s : Selection) :
    ∃ code : Nat, (code = 0 ∨ code = 1) ∧ ∀ i : Invocation,
      (i.regress around path s).code = code ∧
        (i.quiet = true → (i.regress around path s).stdout = "") := by
  obtain ⟨message, hfails⟩ | ⟨found, hshows⟩ := regress_cases around path s
  · refine ⟨1, .inr rfl, fun i => ?_⟩
    rw [hfails]
    exact ⟨rfl, fun _ => rfl⟩
  · refine ⟨if found.all (·.allPassed) then 0 else 1, ?_, fun i => ?_⟩
    · exact (em _).imp (fun h => if_pos h) (fun h => if_neg h)
    · rw [hshows]
      exact ⟨rfl, fun hquiet => if_pos hquiet⟩

section Run

variable {i : Invocation} {around : Surroundings} {path : String} {rule : Option String}
  {version : Option Nat} {latest : Bool} {settings : Settings} {entries : List CatalogEntry}
  {engine : Engine}

/-- A file that is not loaded is no success. -/
theorem code_regress_of_loadEntries_error [Rounding] {err : EngineError}
    (hfile : readFile around "catalog" path (.list (.record .catalogEntry))
      (listOfJson? CatalogEntry.ofJson?) = .ok entries)
    (hload : loadEntries around.sources entries Engine.empty = .error err) :
    (i.regress around path s).code = 1 := by
  rw [Invocation.regress, hfile]
  dsimp only
  rw [hload]
  rfl

/-- **The status of a run on a file that is loaded** is the verdict on its targets. -/
theorem code_run_eq_zero_iff [Rounding]
    (hcommand : i.command = .regress path rule version latest)
    (hsettings : readSettings around i.config = .ok settings)
    (hfile : readFile around "catalog" path (.list (.record .catalogEntry))
      (listOfJson? CatalogEntry.ofJson?) = .ok entries)
    (hload : loadEntries around.sources entries Engine.empty = .ok engine) :
    (i.run around).code = 0 ↔
      ∀ id, (rule = some id ∨ rule = none ∧ ∃ entry ∈ entries, entry.draft.stableId = id) →
        let outcome := (engine.regress around.sources
          ⟨id, version, latest || settings.preferLatest, []⟩).1
        (∃ report, outcome = .ok report ∧ ∀ c ∈ report.cases, c.success = true) ∨
          rule = none ∧ ∃ untested number,
            outcome = .error (.noRegressionCases untested number) := by
  have hloaded : Loaded entries engine.catalog := loaded_of_loadEntries hload
  rw [run_eq_shown hcommand hsettings hfile hload, code_shown_eq_zero_iff, forall_attempts_iff]
  simp only [Selection.passes_test_iff, mem_targets_iff hloaded]
  exact Iff.rfl

/-- **The exit status of a regression run is its verdict.**  With settings that can be read, and of
a catalog file that can be read as a list of entries, a run exits with success if and only if every
entry is accepted and every target, tested with the catalog of all the entries, has only cases that
go as expected, or has no cases and was not asked for.  The targets are the rule that is asked for,
or else all rules of the file.

Otherwise the run exits with one.  The status is the same for every form of output, quiet or not,
and a quiet run writes nothing to the standard output. -/
theorem exit_status_is_verdict [Rounding]
    (hcommand : i.command = .regress path rule version latest)
    (hsettings : readSettings around i.config = .ok settings)
    (hfile : readFile around "catalog" path (.list (.record .catalogEntry))
      (listOfJson? CatalogEntry.ofJson?) = .ok entries) :
    ((i.run around).code = 0 ↔
      (∀ entry ∈ entries, ∀ e, ∃ v, (Engine.create around.sources entry.draft e).1 = .ok v) ∧
      ∃ engine, loadEntries around.sources entries Engine.empty = .ok engine ∧
        ∀ id, (rule = some id ∨ rule = none ∧ ∃ entry ∈ entries, entry.draft.stableId = id) →
          let outcome := (engine.regress around.sources
            ⟨id, version, latest || settings.preferLatest, []⟩).1
          (∃ report, outcome = .ok report ∧ ∀ c ∈ report.cases, c.success = true) ∨
            rule = none ∧ ∃ untested number,
              outcome = .error (.noRegressionCases untested number)) ∧
    ((i.run around).code = 0 ∨ (i.run around).code = 1) ∧
    (∀ output quiet, ({ i with output := output, quiet := quiet }.run around).code =
      (i.run around).code) ∧
    ∀ output, ({ i with output := output, quiet := true }.run around).stdout = "" := by
  refine ⟨?_, ?_⟩
  · rcases hload : loadEntries around.sources entries Engine.empty with err | engine
    · have hcode : (i.run around).code = 1 := by
        rw [run_eq_regress hcommand hsettings]
        exact code_regress_of_loadEntries_error hfile hload
      refine iff_of_false (hcode ▸ Nat.one_ne_zero) ?_
      rintro ⟨-, engine, hengine, -⟩
      cases hengine
    · rw [code_run_eq_zero_iff hcommand hsettings hfile hload]
      have hvalid := accepted_of_loadEntries hload
      constructor
      · intro hverdict
        refine ⟨fun entry hentry e => ?_, engine, rfl, hverdict⟩
        exact (Engine.create_ok_iff around.sources entry.draft e).mpr (hvalid entry hentry)
      · rintro ⟨-, _, hsame, hverdict⟩
        cases hsame
        exact hverdict
  · obtain ⟨code, hcode, hshown⟩ :=
      code_regress around path ⟨rule, version, latest || settings.preferLatest⟩
    have hrun (output : Output) (quiet : Bool) :=
      run_eq_regress (i := { i with output := output, quiet := quiet }) hcommand hsettings
    have hsame (output : Output) (quiet : Bool) :
        ({ i with output := output, quiet := quiet }.run around).code = code := by
      rw [hrun]
      exact (hshown _).1
    have hown : (i.run around).code = code := hsame i.output i.quiet
    refine ⟨hown ▸ hcode, fun output quiet => (hsame output quiet).trans hown.symm,
      fun output => ?_⟩
    rw [hrun]
    exact (hshown _).2 rfl

/-- Two files with a rule whose only case goes as expected and one without cases; in the second file
a rule stands between them of which a case fails.  The run of all rules is a success for the first
file, shown or not, and none for the second; and that of the rule without cases alone is none. -/
theorem exit_status_is_verdict_mixed :
    letI : Rounding := .toNearest
    let fee := "\x7b\"stable_id\":\"fee\",\"name\":\"F\",\"definition\":1," ++
      "\"regression_cases\":[\x7b\"name\":\"n\",\"expected\":1\x7d]\x7d"
    let levy := "\x7b\"stable_id\":\"levy\",\"name\":\"L\",\"definition\":1," ++
      "\"regression_cases\":[\x7b\"name\":\"n\",\"expected\":2\x7d]\x7d"
    let tax := "\x7b\"stable_id\":\"tax\",\"name\":\"T\",\"definition\":1\x7d"
    let files := [("two.json", "[" ++ fee ++ "," ++ tax ++ "]"),
      ("three.json", "[" ++ fee ++ "," ++ levy ++ "," ++ tax ++ "]")]
    let around : Surroundings :=
      ⟨fun path => files.lookup path, ⟨fun n => ⟨n, 0⟩, fun n => toString n⟩, fun _ => ""⟩
    let i (path : String) (rule : Option String) : Invocation :=
      ⟨.text, false, none, .regress path rule none false⟩
    readSettings around none = .ok Settings.default ∧
      ∃ two three, readFile around "catalog" "two.json" (.list (.record .catalogEntry))
          (listOfJson? CatalogEntry.ofJson?) = .ok two ∧
        readFile around "catalog" "three.json" (.list (.record .catalogEntry))
          (listOfJson? CatalogEntry.ofJson?) = .ok three ∧
        (∀ entry ∈ two, ∀ e, ∃ v, (Engine.create around.sources entry.draft e).1 = .ok v) ∧
        (∀ output quiet,
          ({ i "two.json" none with output := output, quiet := quiet }.run around).code = 0) ∧
        (∃ engine report, loadEntries around.sources three Engine.empty = .ok engine ∧
          (engine.regress around.sources ⟨"levy", none, false, []⟩).1 = .ok report ∧
          ∃ c ∈ report.cases, c.success = false) ∧
        (∀ output quiet,
          ({ i "three.json" none with output := output, quiet := quiet }.run around).code = 1) ∧
        ((i "two.json" (some "tax")).run around).code = 1 := by
  let : Rounding := .toNearest
  intro fee levy tax files around i
  obtain ⟨hread, hsuccess, hlone⟩ : (readFile around "catalog" "two.json"
        (.list (.record .catalogEntry)) (listOfJson? CatalogEntry.ofJson?)).toOption.isSome = true ∧
      ((i "two.json" none).run around).code = 0 ∧
      ((i "two.json" (some "tax")).run around).code ≠ 0 := by
    decide +kernel
  have htested : ((readFile around "catalog" "three.json" (.list (.record .catalogEntry))
      (listOfJson? CatalogEntry.ofJson?)).toOption.bind fun entries =>
        (loadEntries around.sources entries Engine.empty).toOption.bind fun engine =>
          (engine.regress around.sources ⟨"levy", none, false, []⟩).1.toOption.map fun report =>
            (entries.any (·.draft.stableId == "levy"), report.cases.any fun c => !c.success)) =
      some (true, true) := by
    decide +kernel
  have hok {ε α : Type} {outcome : Except ε α} {a : α} (h : outcome.toOption = some a) :
      outcome = .ok a := by
    cases outcome with
    | error => cases h
    | ok => exact congrArg Except.ok (Option.some.inj h)
  obtain ⟨two, htwo⟩ := Option.isSome_iff_exists.mp hread
  obtain ⟨three, hthree, htested⟩ := Option.bind_eq_some_iff.mp htested
  obtain ⟨engine, hload, htested⟩ := Option.bind_eq_some_iff.mp htested
  obtain ⟨report, hreport, htested⟩ := Option.map_eq_some_iff.mp htested
  obtain ⟨hlevy, hany⟩ := Prod.mk.inj htested
  have htarget : ∃ entry ∈ three, entry.draft.stableId = "levy" := by simpa using hlevy
  have hcase : ∃ c ∈ report.cases, c.success = false := by simpa using hany
  obtain ⟨hverdict, -, hshown, -⟩ :=
    exit_status_is_verdict (i := i "two.json" none) rfl rfl (hok htwo)
  obtain ⟨hverdict', hcode', hshown', -⟩ :=
    exit_status_is_verdict (i := i "three.json" none) rfl rfl (hok hthree)
  obtain ⟨-, hcode, -, -⟩ :=
    exit_status_is_verdict (i := i "two.json" (some "tax")) rfl rfl (hok htwo)
  have hfails : ((i "three.json" none).run around).code ≠ 0 := by
    intro hzero
    obtain ⟨-, engine', hload', htargets⟩ := hverdict'.mp hzero
    obtain rfl : engine = engine' := Except.ok.inj ((hok hload).symm.trans hload')
    obtain ⟨report', hreport', hall⟩ | ⟨-, _, _, herror⟩ :=
      htargets "levy" (.inr ⟨rfl, htarget⟩)
    · obtain rfl : report = report' := Except.ok.inj ((hok hreport).symm.trans hreport')
      obtain ⟨c, hc, hfailed⟩ := hcase
      exact Bool.false_ne_true (hfailed.symm.trans (hall c hc))
    · cases (hok hreport).symm.trans herror
  exact ⟨rfl, two, three, hok htwo, hok hthree, (hverdict.mp hsuccess).1,
    fun output quiet => (hshown output quiet).trans hsuccess,
    ⟨engine, report, hok hload, hok hreport, hcase⟩,
    fun output quiet => (hshown' output quiet).trans (hcode'.resolve_left hfails),
    hcode.resolve_left hlone⟩

end Run

end CommandLine

end DecisionRules
