import DecisionRules.Proofs.Catalog.Listing
import DecisionRules.Proofs.CommandLine.Loading
import DecisionRules.Proofs.Engine.Accounting

/-!
# Proofs/CommandLine/Regression — which versions a regression run tests

Which version of a rule a run tests follows from the file and the command line alone: the one asked
for, else the latest if that is preferred, else the one of the last entry that asks to be put in
force, else the latest (`CommandLine.Selection.number`).

A run goes through rules and stops at the first error, except that a rule without cases is passed
over unless it was asked for.  `CommandLine.attempts` lists the rules that it gets to, with what
testing them came to; all that a run shows can be read off this list
(`CommandLine.regress_tests_number`).
-/

namespace DecisionRules

/-! ## Testing a version -/

/-- **What testing a version against its own cases comes to**, whenever it is done. -/
def RuleVersion.tested (v : RuleVersion) : Except EngineError RegressionReport :=
  if v.regressionCases.isEmpty then .error (.noRegressionCases v.stableId v.version)
  else
    match caseOutcomes v.definition v.regressionCases with
    | .error err => .error (.eval err)
    | .ok outcomes => .ok
      { stableId := v.stableId
        version := v.version
        total := outcomes.length
        passed := outcomes.countP (·.success)
        failed := outcomes.countP (!·.success)
        cases := outcomes }

/-- **A regression run without cases of its own tests the version that it finds.** -/
theorem Engine.fst_regress (src : Sources) (id : String) (version : Option Nat) (latest : Bool)
    (e : Engine) : (e.regress src ⟨id, version, latest, []⟩).1 =
      ((e.catalog.get id version latest).mapError .catalog).bind RuleVersion.tested := by
  rcases hget : e.catalog.get id version latest with err | v
  · rw [regress, hget]
    rfl
  · rw [regress_eq hget]
    change _ = v.tested
    have hchosen : RegressionRequest.chosen ⟨id, version, latest, []⟩ v = v.regressionCases := rfl
    rw [hchosen, RuleVersion.tested]
    by_cases hempty : v.regressionCases.isEmpty = true
    · rw [if_pos hempty, if_pos hempty]
    · rw [if_neg hempty, if_neg hempty, Journal.fst_runCases]
      rcases caseOutcomes v.definition v.regressionCases with err | outcomes
      · rfl
      · change Except.ok (report v outcomes) = _
        rw [report, length_sub_countP_success]

/-- The versions of a rule stand at the positions of their numbers. -/
theorem Tally.Counts.getElem?_of_mem {t : Tally} {c : Catalog} {id : String} (h : t.Counts c id)
    {v : RuleVersion} (hv : v ∈ c.history id) : (c.history id)[v.version - 1]? = some v := by
  obtain ⟨i, hi, rfl⟩ := List.getElem_of_mem hv
  have hnumber : ((c.history id).map RuleVersion.version)[i]? = some (c.history id)[i].version := by
    rw [List.getElem?_map, List.getElem?_eq_getElem hi, Option.map_some]
  rw [h.numbers_eq] at hnumber
  obtain ⟨hi', hversion⟩ := List.getElem?_eq_some_iff.mp hnumber
  rw [List.getElem_range', Nat.one_mul] at hversion
  rw [← hversion, Nat.add_sub_cancel_left, List.getElem?_eq_getElem hi]

namespace CommandLine

open CatalogEntry

/-! ## The number -/

/-- **The number of the version that is called for** of a rule with these entries. -/
def Selection.number (s : Selection) (own : List CatalogEntry) : Nat :=
  match s.version with
  | some number => number
  | none => if s.preferLatest then own.length else (lastPublished own).getD own.length

/-- Unless it is asked for, it is that of an entry. -/
theorem Selection.number_bounds {s : Selection} {own : List CatalogEntry} (h : s.version = none)
    (hown : own ≠ []) : 1 ≤ s.number own ∧ s.number own ≤ own.length := by
  have hlength : 1 ≤ own.length := List.length_pos_iff.mpr hown
  rw [number, h]
  dsimp only
  by_cases hlatest : s.preferLatest = true
  · rw [if_pos hlatest]
    exact ⟨hlength, Nat.le_refl _⟩
  · rw [if_neg hlatest]
    rcases hlast : lastPublished own with _ | position
    · exact ⟨hlength, Nat.le_refl _⟩
    · exact lastPublished_bounds hlast

/-- Why there is no version to test. -/
def missing (id : String) (own : List CatalogEntry) (number : Nat) : CatalogError :=
  if own = [] then .ruleNotFound id else .versionNotFound id number

/-- **A lookup finds the version called for**, if there is an entry for it. -/
theorem get_tally (s : Selection) (id : String) (own : List CatalogEntry) :
    (tally own).get id s.version s.preferLatest =
      if 1 ≤ s.number own ∧ s.number own ≤ own.length then .ok (id, s.number own)
      else .error (missing id own (s.number own)) := by
  rw [missing]
  unfold Tally.get
  by_cases hown : own = []
  · subst hown
    have hnone : ¬ (1 ≤ s.number [] ∧ s.number [] ≤ ([] : List CatalogEntry).length) := by
      rw [List.length_nil]
      omega
    rw [if_neg hnone, if_pos rfl]
    rfl
  · have hmade : (tally own).made ≠ 0 := mt List.length_eq_zero_iff.mp hown
    rw [if_neg hmade, if_neg hown]
    rcases hversion : s.version with _ | number
    · rw [if_pos (Selection.number_bounds hversion hown), Selection.number, hversion]
      rfl
    · have hnumber : s.number own = number := by rw [Selection.number, hversion]
      rw [hnumber]
      rfl

/-- **The version called for is the one made of the entry at this position.** -/
theorem get_of_loaded {entries : List CatalogEntry} {c : Catalog} (h : Loaded entries c)
    (s : Selection) (id : String) :
    let own := ofRule id entries
    let number := s.number own
    if 1 ≤ number ∧ number ≤ own.length then
      ∃ entry v, own[number - 1]? = some entry ∧ c.get id s.version s.preferLatest = .ok v ∧
        v.version = number ∧ v.draft = entry.draft
    else c.get id s.version s.preferLatest = .error (missing id own number) := by
  intro own number
  have hcounts : (tally own).Counts c id := h.counts id
  have hget := hcounts.get s.version s.preferLatest
  rw [get_tally] at hget
  by_cases hbounds : 1 ≤ number ∧ number ≤ own.length
  · rw [if_pos hbounds] at hget ⊢
    rcases hfound : c.get id s.version s.preferLatest with err | v
    · rw [hfound] at hget
      cases hget
    · rw [hfound] at hget
      have hversion : v.version = number := congrArg Prod.snd (Except.ok.inj hget)
      have hv : v ∈ c.history id := Catalog.mem_history_of_get hcounts.filled hfound
      have hdraft : ((c.history id).map RuleVersion.draft)[number - 1]? = some v.draft := by
        rw [← hversion, List.getElem?_map, hcounts.getElem?_of_mem hv, Option.map_some]
      rw [h.drafts, List.getElem?_map] at hdraft
      obtain ⟨entry, hentry, hsame⟩ := Option.map_eq_some_iff.mp hdraft
      exact ⟨entry, v, hentry, rfl, hversion, hsame.symm⟩
  · rw [if_neg hbounds] at hget ⊢
    rcases hfound : c.get id s.version s.preferLatest with err | v
    · rw [hfound] at hget
      exact congrArg Except.error (Except.error.inj hget)
    · rw [hfound] at hget
      cases hget

/-! ## The rules that a run gets to -/

/-- A rule that a run gets to, and what testing it came to. -/
structure Attempt where
  rule : String
  outcome : Except EngineError RegressionReport

/-- The error that ends a run.  A rule without cases ends it only if it was asked for. -/
def Selection.ending? (s : Selection) : Except EngineError RegressionReport → Option EngineError
  | .ok _ => none
  | .error (.noRegressionCases id number) =>
    if s.rule.isNone then none else some (.noRegressionCases id number)
  | .error err => some err

/-- Tests a rule, in the version that is called for. -/
def Selection.test (src : Sources) (s : Selection) (id : String) (e : Engine) :
    Except EngineError RegressionReport × Engine :=
  e.regress src ⟨id, s.version, s.preferLatest, []⟩

/-- **The rules that a run gets to**: one after the other, up to one that ends it. -/
def attempts (src : Sources) (s : Selection) : List String → Engine → List Attempt
  | [], _ => []
  | id :: rest, e =>
    ⟨id, (s.test src id e).1⟩ ::
      if (s.ending? (s.test src id e).1).isSome then [] else attempts src s rest (s.test src id e).2

/-- The error that a run ended with, if it did not go through. -/
def Selection.ended? (s : Selection) (log : List Attempt) : Option EngineError :=
  log.findSome? fun attempt => s.ending? attempt.outcome

/-- The reports of a run. -/
def reports (log : List Attempt) : List RegressionReport :=
  log.filterMap fun attempt => attempt.outcome.toOption

/-- What a run comes to, by the rules that it got to. -/
def Selection.conclusion (s : Selection) (log : List Attempt) :
    Except EngineError (List RegressionReport) :=
  match s.ended? log with
  | some err => .error err
  | none => .ok (reports log)

/-- A run goes on after a rule that does not end it. -/
theorem runTargets_cons (src : Sources) (s : Selection) (id : String) (rest : List String)
    (e : Engine) : runTargets src s (id :: rest) e =
      match s.ending? (s.test src id e).1 with
      | some err => .error err
      | none => (runTargets src s rest (s.test src id e).2).map
        ((s.test src id e).1.toOption.toList ++ ·) := by
  rw [runTargets, Selection.test]
  rcases e.regress src ⟨id, s.version, s.preferLatest, []⟩ with ⟨err | report, e'⟩
  · rcases err with _ | _ | _ | ⟨rule, number⟩ | _
    case noRegressionCases =>
      dsimp only [Selection.ending?]
      by_cases hrule : s.rule.isNone = true
      · rw [if_pos hrule, if_pos hrule]
        rcases runTargets src s rest e' with err | found <;> rfl
      · rw [if_neg hrule, if_neg hrule]
    all_goals rfl
  · rfl

theorem reports_cons (attempt : Attempt) (log : List Attempt) :
    reports (attempt :: log) = attempt.outcome.toOption.toList ++ reports log := by
  rw [reports, List.filterMap_cons]
  rcases attempt.outcome with err | report <;> rfl

theorem ended?_cons (s : Selection) (attempt : Attempt) (log : List Attempt) :
    s.ended? (attempt :: log) = (s.ending? attempt.outcome).or (s.ended? log) := by
  rw [Selection.ended?, List.findSome?_cons]
  rcases s.ending? attempt.outcome with _ | err <;> rfl

theorem conclusion_cons (s : Selection) (attempt : Attempt) (log : List Attempt) :
    s.conclusion (attempt :: log) =
      match s.ending? attempt.outcome with
      | some err => .error err
      | none => (s.conclusion log).map (attempt.outcome.toOption.toList ++ ·) := by
  rw [Selection.conclusion, Selection.conclusion, ended?_cons, reports_cons]
  rcases s.ending? attempt.outcome with _ | err
  · rw [Option.none_or]
    rcases s.ended? log with _ | err <;> rfl
  · rfl

/-- **What a run comes to can be read off the rules that it got to.** -/
theorem runTargets_eq (src : Sources) (s : Selection) : ∀ (ids : List String) (e : Engine),
    runTargets src s ids e = s.conclusion (attempts src s ids e)
  | [], _ => rfl
  | id :: rest, e => by
    rw [runTargets_cons, attempts, conclusion_cons]
    dsimp only
    rcases hending : s.ending? (s.test src id e).1 with _ | err
    · rw [Option.isSome_none, if_neg Bool.false_ne_true, runTargets_eq src s rest]
    · rfl

variable {src : Sources} {s : Selection}

/-- They are tested with the catalog as it is. -/
theorem outcome_of_mem_attempts {attempt : Attempt} :
    ∀ {ids : List String} {e : Engine}, attempt ∈ attempts src s ids e →
      attempt.outcome = ((e.catalog.get attempt.rule s.version s.preferLatest).mapError
        .catalog).bind RuleVersion.tested
  | id :: rest, e, h => by
    rw [attempts] at h
    obtain rfl | h := List.mem_cons.mp h
    · exact Engine.fst_regress src id s.version s.preferLatest e
    · by_cases hending : (s.ending? (s.test src id e).1).isSome = true
      · rw [if_pos hending] at h
        exact absurd h List.not_mem_nil
      · rw [if_neg hending] at h
        have hcatalog : (s.test src id e).2.catalog = e.catalog := Engine.catalog_regress _ e
        rw [outcome_of_mem_attempts h, hcatalog]

/-- **A run gets to the first rules**: to all of them, or up to one that ends it. -/
theorem attempts_cases (src : Sources) (s : Selection) : ∀ (ids : List String) (e : Engine),
    (attempts src s ids e).map Attempt.rule = ids ∨
      (attempts src s ids e).map Attempt.rule <+: ids ∧
        ∃ last err, (attempts src s ids e).getLast? = some last ∧ s.ending? last.outcome = some err
  | [], _ => .inl rfl
  | id :: rest, e => by
    rw [attempts]
    rcases hending : s.ending? (s.test src id e).1 with _ | err
    · rw [Option.isSome_none, if_neg Bool.false_ne_true, List.map_cons]
      obtain hall | ⟨hfirst, last, err, hlast, hended⟩ :=
        attempts_cases src s rest (s.test src id e).2
      · left
        rw [hall]
      · right
        refine ⟨(List.prefix_cons_inj id).mpr hfirst, last, err, ?_, hended⟩
        rw [List.getLast?_cons, hlast]
        rfl
    · right
      rw [Option.isSome_some, if_pos rfl]
      exact ⟨(List.prefix_cons_inj id).mpr List.nil_prefix, _, err, rfl, hending⟩

/-- **All rules of a file are targets if none is asked for**, in the order of the bytes of their
ids. -/
theorem targets_of_loaded {entries : List CatalogEntry} {e : Engine} (h : Loaded entries e.catalog)
    (hrule : s.rule = none) :
    (s.targets e).Pairwise (fun first second => utf8Bytes first < utf8Bytes second) ∧
      ∀ id, id ∈ s.targets e ↔ ∃ entry ∈ entries, entry.draft.stableId = id := by
  have hlisted : s.targets e = e.catalog.listing.rules.map RuleSummary.stableId := by
    rw [Selection.targets, hrule]
  rw [hlisted, List.pairwise_map]
  refine ⟨Catalog.pairwise_listing e.catalog, fun id => ?_⟩
  rw [Catalog.mem_ids_listing_iff, ← ofRule_ne_nil_iff]
  exact not_congr (by rw [← List.map_eq_nil_iff, h.drafts id, List.map_eq_nil_iff])

/-- A run of one rule gets to it. -/
theorem attempts_singleton (src : Sources) (s : Selection) (id : String) (e : Engine) :
    (attempts src s [id] e).map Attempt.rule = [id] := by
  rw [attempts, List.map_cons]
  split <;> rfl

/-- What ends a run is an error, and none that a rule without cases is passed over for. -/
theorem Selection.outcome_of_ending? {outcome : Except EngineError RegressionReport}
    {err : EngineError} (h : s.ending? outcome = some err) : outcome = .error err ∧
      (s.rule = none → ∀ id number, err ≠ .noRegressionCases id number) := by
  rcases outcome with err' | report
  · rcases err' with _ | _ | _ | ⟨rule, number⟩ | _
    case noRegressionCases =>
      rw [ending?] at h
      by_cases hrule : s.rule.isNone = true
      · rw [if_pos hrule] at h
        cases h
      · rw [if_neg hrule] at h
        refine ⟨congrArg Except.error (Option.some.inj h), fun hnone => ?_⟩
        rw [hnone] at hrule
        exact absurd rfl hrule
    all_goals
      obtain rfl := Option.some.inj h
      exact ⟨rfl, fun _ _ _ => nofun⟩
  · cases h

/-! ## The whole run -/

/-- What a run shows, by the rules that it got to. -/
def Invocation.shown (i : Invocation) (s : Selection) (log : List Attempt) : Outcome :=
  match s.ended? log with
  | some err => i.failure ("regression error: " ++ err.message)
  | none =>
    ⟨if (reports log).all (·.allPassed) then 0 else 1, i.say (i.reportsText (reports log)), ""⟩

theorem code_shown {i : Invocation} {log : List Attempt} {attempt : Attempt} (hmem : attempt ∈ log)
    {err : EngineError} (h : s.ending? attempt.outcome = some err) : (i.shown s log).code = 1 := by
  have hended : s.ended? log ≠ none := by
    intro hnone
    have hgoes := List.findSome?_eq_none_iff.mp hnone attempt hmem
    rw [h] at hgoes
    cases hgoes
  obtain ⟨err', herr⟩ := Option.ne_none_iff_exists'.mp hended
  rw [Invocation.shown, herr]
  rfl

section Run

variable {i : Invocation} {around : Surroundings} {path : String} {rule : Option String}
  {version : Option Nat} {latest : Bool} {settings : Settings} {entries : List CatalogEntry}

/-- What is done with an invocation of a regression run. -/
theorem run_eq_regress [Rounding] (hcommand : i.command = .regress path rule version latest)
    (hsettings : readSettings around i.config = .ok settings) :
    i.run around = i.regress around path ⟨rule, version, latest || settings.preferLatest⟩ := by
  rw [Invocation.run, hsettings, hcommand]

theorem run_eq_shown [Rounding] (hcommand : i.command = .regress path rule version latest)
    (hsettings : readSettings around i.config = .ok settings)
    (hfile : readFile around "catalog" path (.list (.record .catalogEntry))
      (listOfJson? CatalogEntry.ofJson?) = .ok entries) {engine : Engine}
    (hload : loadEntries around.sources entries Engine.empty = .ok engine) :
    let s : Selection := ⟨rule, version, latest || settings.preferLatest⟩
    i.run around = i.shown s (attempts around.sources s (s.targets engine) engine) := by
  intro s
  rw [run_eq_regress hcommand hsettings, Invocation.regress, hfile]
  dsimp only
  rw [hload]
  dsimp only
  rw [runTargets_eq, Selection.conclusion, Invocation.shown]
  rcases s.ended? (attempts around.sources s (s.targets engine) engine) with _ | err <;> rfl

/-- **A regression run tests the versions that its file and its command line call for.**  If every
entry of the catalog file is accepted, the file is loaded: no entry that asks for it fails to be put
in force.  A run then gets to the rule that was asked for, or else to the rules of the file, each
once and in the order of the bytes of their ids; and it gets to all of them, unless an error ends it
that is not about a rule without cases.  Of each rule that it gets to it tests the version with the
number called for, which is made of the entry at this position among those of the rule; if there is
no such entry, the program exits with an error.

Numbers are naturals and do not wrap around.  In a word of thirty-two bits they would only if the
file had `2 ^ 32` entries of one rule. -/
theorem regress_tests_number [Rounding]
    (hcommand : i.command = .regress path rule version latest)
    (hsettings : readSettings around i.config = .ok settings)
    (hfile : readFile around "catalog" path (.list (.record .catalogEntry))
      (listOfJson? CatalogEntry.ofJson?) = .ok entries)
    (haccepted : ∀ entry ∈ entries,
      ∃ e v, (Engine.create around.sources entry.draft e).1 = .ok v) :
    let s : Selection := ⟨rule, version, latest || settings.preferLatest⟩
    ∃ engine, loadEntries around.sources entries Engine.empty = .ok engine ∧
      let log := attempts around.sources s (s.targets engine) engine
      i.run around = i.shown s log ∧
      (∀ id, rule = some id → log.map Attempt.rule = [id]) ∧
      (rule = none → ∃ ids, ids.Pairwise (fun first second => utf8Bytes first < utf8Bytes second) ∧
        (∀ id, id ∈ ids ↔ ∃ entry ∈ entries, entry.draft.stableId = id) ∧
        log.map Attempt.rule <+: ids ∧
        (log.map Attempt.rule ≠ ids → ∃ last err, log.getLast? = some last ∧
          last.outcome = .error err ∧ (∀ id number, err ≠ .noRegressionCases id number) ∧
          (i.run around).code = 1)) ∧
      ∀ attempt ∈ log,
        let own := ofRule attempt.rule entries
        let number := s.number own
        if 1 ≤ number ∧ number ≤ own.length then
          ∃ entry v, own[number - 1]? = some entry ∧
            engine.catalog.get attempt.rule s.version s.preferLatest = .ok v ∧
            v.version = number ∧ v.draft = entry.draft ∧ attempt.outcome = v.tested
        else
          attempt.outcome = .error (.catalog (missing attempt.rule own number)) ∧
            (i.run around).code = 1 := by
  intro s
  have hvalid : ∀ entry ∈ entries,
      entry.draft.check = .ok () ∧ validate entry.draft.definition = .ok () := by
    intro entry hentry
    obtain ⟨e, hv⟩ := haccepted entry hentry
    exact (Engine.create_ok_iff around.sources entry.draft e).mp hv
  have hempty : Loaded [] Engine.empty.catalog := loaded_nil
  obtain ⟨engine, hload, hloaded⟩ := exists_loadEntries around.sources [] hempty hvalid
  rw [List.nil_append] at hloaded
  have hrun := run_eq_shown hcommand hsettings hfile hload
  refine ⟨engine, hload, ?_⟩
  intro log
  refine ⟨hrun, fun id hrule => ?_, fun hrule => ?_, fun attempt hattempt => ?_⟩
  · subst hrule
    exact attempts_singleton around.sources s id engine
  · have hnone : s.rule = none := hrule
    obtain ⟨hordered, hmem⟩ := targets_of_loaded hloaded hnone
    refine ⟨s.targets engine, hordered, hmem, ?_⟩
    obtain hall | ⟨hfirst, last, err, hlast, hending⟩ :=
      attempts_cases around.sources s (s.targets engine) engine
    · exact ⟨hall.symm ▸ List.prefix_rfl, fun hne => absurd hall hne⟩
    · obtain ⟨houtcome, hother⟩ := Selection.outcome_of_ending? hending
      refine ⟨hfirst, fun _ => ⟨last, err, hlast, houtcome, hother hrule, ?_⟩⟩
      rw [hrun]
      exact code_shown (List.mem_of_getLast? hlast) hending
  · intro own number
    have hget := get_of_loaded hloaded s attempt.rule
    have houtcome := outcome_of_mem_attempts hattempt
    by_cases hbounds : 1 ≤ number ∧ number ≤ own.length
    · rw [if_pos hbounds] at hget ⊢
      obtain ⟨entry, v, hentry, hv, hversion, hdraft⟩ := hget
      refine ⟨entry, v, hentry, hv, hversion, hdraft, ?_⟩
      rw [houtcome, hv]
      rfl
    · rw [if_neg hbounds] at hget ⊢
      rw [hget] at houtcome
      refine ⟨houtcome, ?_⟩
      rw [hrun]
      refine code_shown hattempt (?_ : _ = some (.catalog (missing attempt.rule own number)))
      rw [houtcome]
      rfl

/-- A file with two entries of a rule, of which the first asks to be put in force, and one of
another rule between them. -/
theorem regress_tests_number_revised :
    letI : Rounding := .toNearest
    let text :=
      "[\x7b\"stable_id\":\"fee\",\"name\":\"F\",\"definition\":1,\"publish\":true\x7d," ++
      "\x7b\"stable_id\":\"tax\",\"name\":\"T\",\"definition\":1,\"publish\":true\x7d," ++
      "\x7b\"stable_id\":\"fee\",\"name\":\"F\",\"definition\":2\x7d]"
    let around : Surroundings := ⟨fun path => if path = "rules.json" then some text else none,
      ⟨fun n => ⟨n, 0⟩, fun n => toString n⟩, fun _ => ""⟩
    let i : Invocation := ⟨.text, false, none, .regress "rules.json" (some "fee") none false⟩
    let s : Selection := ⟨some "fee", none, false⟩
    readSettings around i.config = .ok Settings.default ∧
      ∃ entries, readFile around "catalog" "rules.json" (.list (.record .catalogEntry))
        (listOfJson? CatalogEntry.ofJson?) = .ok entries ∧
        (∀ entry ∈ entries, ∃ e v, (Engine.create around.sources entry.draft e).1 = .ok v) ∧
        (ofRule "fee" entries).length = 2 ∧
        ∃ engine v attempt, loadEntries around.sources entries Engine.empty = .ok engine ∧
          engine.catalog.get "fee" none false = .ok v ∧ v.version = 1 ∧
          attempts around.sources s ["fee"] engine = [attempt] ∧ attempt.outcome = v.tested ∧
          i.run around = i.shown s [attempt] := by
  let : Rounding := .toNearest
  intro text around i s
  have hread : (readFile around "catalog" "rules.json" (.list (.record .catalogEntry))
      (listOfJson? CatalogEntry.ofJson?)).toOption.map (fun entries =>
        (entries.all fun entry => decide (entry.draft.check.isOk ∧
          (validate entry.draft.definition).isOk), (ofRule "fee" entries).length,
          s.number (ofRule "fee" entries))) = some (true, 2, 1) := by
    decide +kernel
  rcases hfile : readFile around "catalog" "rules.json" (.list (.record .catalogEntry))
    (listOfJson? CatalogEntry.ofJson?) with err | entries
  · rw [hfile] at hread
    cases hread
  rw [hfile] at hread
  obtain ⟨hall, hrest⟩ := Prod.mk.inj (Option.some.inj hread)
  obtain ⟨hlength, hnumber⟩ := Prod.mk.inj hrest
  have haccepted : ∀ entry ∈ entries,
      ∃ e v, (Engine.create around.sources entry.draft e).1 = .ok v := by
    intro entry hentry
    obtain ⟨hcheck, hvalid⟩ := of_decide_eq_true (List.all_eq_true.mp hall entry hentry)
    have hunit {ε : Type} {outcome : Except ε Unit} (h : outcome.isOk = true) :
        outcome = .ok () := by
      rcases outcome with err | ⟨⟩
      · cases h
      · rfl
    exact ⟨Engine.empty, (Engine.create_ok_iff around.sources entry.draft Engine.empty).mpr
      ⟨hunit hcheck, hunit hvalid⟩⟩
  obtain ⟨engine, hload, hrun, hone, -, hlog⟩ :=
    regress_tests_number (i := i) rfl rfl hfile haccepted
  obtain ⟨attempt, hattempt, hrule⟩ := List.map_eq_singleton_iff.mp (hone "fee" rfl)
  have htested := hlog attempt (hattempt ▸ List.mem_singleton_self attempt)
  rw [hrule] at htested
  have hbounds : 1 ≤ s.number (ofRule "fee" entries) ∧
      s.number (ofRule "fee" entries) ≤ (ofRule "fee" entries).length := by
    rw [hnumber, hlength]
    decide
  obtain ⟨entry, v, -, hget, hversion, -, houtcome⟩ := (if_pos hbounds).mp htested
  exact ⟨rfl, entries, rfl, haccepted, hlength, engine, v, attempt, hload, hget,
    hversion.trans hnumber, hattempt, houtcome, hattempt ▸ hrun⟩

end Run

end CommandLine

end DecisionRules
