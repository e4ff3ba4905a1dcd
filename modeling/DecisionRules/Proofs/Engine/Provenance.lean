import DecisionRules.Proofs.Catalog.History
import DecisionRules.Proofs.Catalog.Tally

/-!
# Proofs/Engine/Provenance — a record leads back to the version it was made of

What is recorded of a rule names the version that was looked up, not the one that was asked for, and
holds its definition.  As long as the catalog is not emptied, that version is found under the name
and number in the record, and still has that definition (`Session.get_of_recorded`).

Two stores that change independently are tied together here by two facts about the catalog alone: a
version keeps what it decides and its number (`Catalog.Continues`), and no number is used twice
(`Tally.Counts`), so that a lookup by number finds this version and no other
(`Tally.Counts.get_of_mem`).
-/

namespace DecisionRules

/-! ## A lookup by number -/

/-- The versions of a rule are numbered from 1, in order. -/
theorem Tally.Counts.numbers_eq {t : Tally} {c : Catalog} {id : String} (h : t.Counts c id) :
    (c.history id).map RuleVersion.version = List.range' 1 t.made := by
  have hkeys := congrArg (List.map Prod.snd) h.keys_eq
  rw [Tally.keys, List.map_map, List.map_map] at hkeys
  exact hkeys.trans (List.map_id' _)

/-- No two versions of a rule have the same number. -/
theorem Tally.Counts.nodup_version {t : Tally} {c : Catalog} {id : String} (h : t.Counts c id) :
    ((c.history id).map RuleVersion.version).Nodup := by
  rw [h.numbers_eq]
  exact List.nodup_range'

/-- In a list without repeated numbers, each version is the first with its number. -/
theorem find?_version_of_mem {v : RuleVersion} {versions : List RuleVersion}
    (hnodup : (versions.map RuleVersion.version).Nodup) (hv : v ∈ versions) :
    versions.find? (·.version == v.version) = some v := by
  induction versions with
  | nil => exact absurd hv List.not_mem_nil
  | cons u rest ih =>
    rw [List.map_cons, List.nodup_cons] at hnodup
    rcases List.mem_cons.mp hv with rfl | hv
    · exact List.find?_cons_of_pos (beq_self_eq_true v.version)
    · have hne : u.version ≠ v.version := by
        intro heq
        exact hnodup.1 (heq ▸ List.mem_map_of_mem hv)
      rw [List.find?_cons_of_neg (by simpa using hne)]
      exact ih hnodup.2 hv

/-- **Each version of a rule is found by its number.** -/
theorem Tally.Counts.get_of_mem {t : Tally} {c : Catalog} {id : String} (h : t.Counts c id)
    {v : RuleVersion} (hv : v ∈ c.history id) (preferLatest : Bool) :
    c.get id (some v.version) preferLatest = .ok v := by
  have hselect : Catalog.select (c.history id) (some v.version) preferLatest = some v :=
    find?_version_of_mem h.nodup_version hv
  rw [Catalog.get_eq h.filled, if_neg (List.ne_nil_of_mem hv), hselect]

/-- **A version is found later**, by its number, and what lasts of it has not changed. -/
theorem Catalog.Continues.get {c c' : Catalog} {id : String} (h : c.Continues c' id) {t : Tally}
    (hcounts : t.Counts c' id) {version : Option Nat} {preferLatest : Bool} {rule : RuleVersion}
    (hfilled : c.rules.get? id ≠ some []) (hget : c.get id version preferLatest = .ok rule) :
    ∃ v, (∀ latest, c'.get id (some rule.version) latest = .ok v) ∧ v.lasting = rule.lasting := by
  have hrule : rule ∈ c.history id := mem_history_of_get hfilled hget
  have hearlier : c.versions id = .ok (c.history id) := by
    rw [versions_eq hfilled, if_neg (List.ne_nil_of_mem hrule)]
  obtain ⟨later, hlater, hprefix⟩ := h _ hearlier
  have hhistory : c'.history id = later := history_eq_of_versions hlater
  have hmem : rule.lasting ∈ later.map RuleVersion.lasting :=
    hprefix.subset (List.mem_map_of_mem hrule)
  obtain ⟨v, hv, hsame⟩ := List.mem_map.mp hmem
  have hversion : v.version = rule.version := congrArg RuleVersion.Lasting.version hsame
  refine ⟨v, fun latest => ?_, hsame⟩
  rw [← hversion]
  exact hcounts.get_of_mem (hhistory ▸ hv) latest

/-! ## What a record names -/

/-- Whether a request runs a version of a rule that is looked up in the catalog. -/
def Request.RunsRule : Request → Prop
  | .evaluate q => q.logic = none
  | .regress _ => True
  | _ => False

/-- **What a request names in a catalog**: the expression that it wants evaluated, and the rule and
the number that this is recorded under. -/
inductive EvaluationRequest.Names (r : EvaluationRequest) (c : Catalog) :
    Value → Option String → Option Nat → Prop
  /-- An expression given in place goes under what the request says, whatever the catalog has. -/
  | inPlace {logic : Value} (given : r.logic = some logic) : Names r c logic r.stableId r.version
  /-- Otherwise it is the version that the lookup finds. -/
  | byReference {id : String} {rule : RuleVersion} (absent : r.logic = none)
      (asked : r.stableId = some id) (found : c.get id r.version r.preferLatest = .ok rule) :
      Names r c rule.definition (some rule.stableId) (some rule.version)

namespace Engine

variable {c : Catalog} {q : EvaluationRequest}

/-- **The target of an evaluation is what the request names.** -/
theorem target_eq_ok_iff {definition : Value} {stableId : Option String} {version : Option Nat} :
    target c q = .ok (definition, stableId, version) ↔ q.Names c definition stableId version := by
  constructor
  · intro h
    rcases hlogic : q.logic with _ | logic
    · rcases hid : q.stableId with _ | id
      · simp only [target, hlogic, hid] at h
        cases h
      · rcases hget : c.get id q.version q.preferLatest with err | rule
        · simp only [target, hlogic, hid, hget] at h
          cases h
        · simp only [target, hlogic, hid, hget] at h
          cases h
          exact .byReference hlogic hid hget
    · simp only [target, hlogic] at h
      cases h
      exact .inPlace hlogic
  · rintro (hlogic | ⟨hlogic, hid, hget⟩)
    · simp only [target, hlogic]
    · simp only [target, hlogic, hid, hget]

/-- **There is none** if the request names nothing, or if the lookup fails. -/
theorem target_eq_error_iff {err : EngineError} : target c q = .error err ↔
    q.logic = none ∧ (q.stableId = none ∧ err = .missingTarget ∨
      ∃ id fault, q.stableId = some id ∧ c.get id q.version q.preferLatest = .error fault ∧
        err = .catalog fault) := by
  rcases hlogic : q.logic with _ | logic
  · rcases hid : q.stableId with _ | id
    · simp [target, hlogic, hid, eq_comm]
    · rcases hget : c.get id q.version q.preferLatest with fault | rule
      · simp [target, hlogic, hid, hget, eq_comm]
      · simp [target, hlogic, hid, hget]
  · simp [target, hlogic]

/-- **The target of an evaluation by reference is a version that is looked up.** -/
theorem target_of_logic_none (hlogic : q.logic = none) {definition : Value}
    {stableId : Option String} {version : Option Nat}
    (h : target c q = .ok (definition, stableId, version)) : ∃ id rule,
      c.get id q.version q.preferLatest = .ok rule ∧ definition = rule.definition ∧
        stableId = some rule.stableId ∧ version = some rule.version := by
  cases target_eq_ok_iff.mp h with
  | inPlace given =>
    rw [hlogic] at given
    cases given
  | byReference absent asked found => exact ⟨_, _, found, rfl, rfl, rfl⟩

end Engine

/-- **What is recorded of a rule names the version looked up**, and holds its definition. -/
theorem Engine.MayRecord.rule {e : Engine} {r : Request} {a : Artifact} (h : e.MayRecord r a)
    (hrule : r.RunsRule) : ∃ id version preferLatest rule,
      e.catalog.get id version preferLatest = .ok rule ∧ a.stableId = some rule.stableId ∧
        a.version = some rule.version ∧ a.definition = rule.definition := by
  cases h with
  | evaluated found records =>
    obtain ⟨id, rule, hget, rfl, rfl, rfl⟩ := target_of_logic_none hrule found
    exact ⟨id, _, _, rule, hget, records.stableId_eq, records.version_eq, records.definition_eq⟩
  | tested found _ records =>
    exact ⟨_, _, _, _, found, records.stableId_eq, records.version_eq, records.definition_eq⟩

namespace Session

variable {ι : Type} [DecidableEq ι]

/-- **A record leads back to its version.**  Whatever an engine records when it runs a rule — by
reference or against regression cases, and also if the run breaks off — names a rule and a number.
However things go on, unless the catalog of this engine is emptied, that version is found there,
with the definition that is in the record. -/
theorem get_of_recorded (src : Sources) (front back : List (ι × Request)) (who : ι)
    {asked : Request} (hasked : asked.RunsRule) (hclear : (who, Request.clearCatalog) ∉ back) :
    let before := (run src front empty).2
    let after := (before.perform src who asked).2
    ∃ made, after.journal.store.artifacts = before.journal.store.artifacts ++ made ∧
      ∀ a ∈ made, ∃ id number v, a.stableId = some id ∧ a.version = some number ∧
        (∀ preferLatest,
          ((after.run src back).2.catalogs who).get id (some number) preferLatest = .ok v) ∧
        v.stableId = id ∧ v.version = number ∧ v.definition = a.definition := by
  intro before after
  have hclears : asked ≠ .clearArtifacts := by
    rintro rfl
    exact hasked
  obtain ⟨made, hmay, hmade⟩ := (before.engine who).artifacts_perform src hclears
  refine ⟨made, hmade, fun a ha => ?_⟩
  obtain ⟨id, version, preferLatest, rule, hget, hstableId, hversion, hdefinition⟩ :=
    (hmay a ha).rule hasked
  -- The catalog agrees with a tally when the version is looked up, and still does in the end.
  obtain ⟨t, ht⟩ : ∃ t : Tally, t.Counts (before.catalogs who) id :=
    ⟨_, counts_run src who id front empty (Tally.counts_empty id)⟩
  have hlater : Tally.Counts _ ((after.run src back).2.catalogs who) id :=
    counts_run src who id ((who, asked) :: back) before ht
  have hcontinues : (before.catalogs who).Continues ((after.run src back).2.catalogs who) id := by
    have hkept : (who, Request.clearCatalog) ∉ (who, asked) :: back := by
      rintro (_ | ⟨_, hmem⟩)
      · exact hasked
      · exact hclear hmem
    exact continues_run src id before hkept
  obtain ⟨v, hv, hsame⟩ := hcontinues.get hlater ht.filled hget
  obtain ⟨hid, hnumber, -, -, -, hkept, -⟩ := RuleVersion.Lasting.mk.inj hsame
  have hrule : rule.stableId = id := ht.stableId_eq (Catalog.mem_history_of_get ht.filled hget)
  exact ⟨id, rule.version, v, by rw [hstableId, hrule], hversion, hv, hid.trans hrule, hnumber,
    hkept.trans hdefinition.symm⟩

/-- A regression run of the version in force, before the rule is revised and the revision put in
force; another engine empties its catalog. -/
theorem get_of_recorded_revised :
    let draft : RuleDraft := ⟨"yes", "Yes", none, .bool true, KeyMap.empty, none,
      [⟨"holds", .emptyObject, .bool true, none⟩]⟩
    let src : Sources := ⟨fun n => ⟨n, 0⟩, fun n => toString n⟩
    let front : List (Bool × Request) := [(true, .create draft), (true, .publish "yes" 1 none)]
    let asked : Request := .regress ⟨"yes", none, false, []⟩
    let back : List (Bool × Request) := [(true, .create { draft with definition := .bool false }),
      (true, .publish "yes" 2 none), (false, .clearCatalog)]
    let after := ((run src front empty).2.perform src true asked).2
    asked.RunsRule ∧ (true, Request.clearCatalog) ∉ back ∧
      ∃ a v, after.journal.store.artifacts = [a] ∧ a.stableId = some "yes" ∧ a.version = some 1 ∧
        ((after.run src back).2.catalogs true).get "yes" (some 1) false = .ok v ∧
        v.definition = a.definition := by
  intro draft src front asked back after
  have hasked : asked.RunsRule := trivial
  have hclear : (true, Request.clearCatalog) ∉ back := by simp [back]
  obtain ⟨made, hmade, hkept⟩ := get_of_recorded src front back true hasked hclear
  have hkeys : after.journal.store.artifacts.map (fun a => (a.stableId, a.version)) =
      [(some "yes", some 1)] := by
    decide +kernel
  obtain ⟨a, ha, hkey⟩ := List.map_eq_singleton_iff.mp hkeys
  have hnothing : (run src front empty).2.journal.store.artifacts = [] :=
    List.length_eq_zero_iff.mp (by decide +kernel)
  have hone : made = [a] := by rw [← ha, hmade, hnothing, List.nil_append]
  obtain ⟨id, number, v, hid, hnumber, hget, -, -, hdefinition⟩ :=
    hkept a (hone ▸ List.mem_singleton_self a)
  obtain ⟨hyes, hfirst⟩ := Prod.mk.inj hkey
  obtain rfl : id = "yes" := Option.some.inj (hid.symm.trans hyes)
  obtain rfl : number = 1 := Option.some.inj (hnumber.symm.trans hfirst)
  exact ⟨hasked, hclear, a, v, ha, hid, hnumber, hget false, hdefinition⟩

end Session

end DecisionRules
