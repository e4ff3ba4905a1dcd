import DecisionRules.Proofs.Engine.Accounting
import DecisionRules.Proofs.Engine.Provenance
import DecisionRules.Proofs.Record.RoundTrip

/-!
# Proofs/Engine/Handover — what an engine hands out comes back from its JSON form

Every record that an engine answers with is read back from its text as an equal one
(`Session.isRestored_of_run`), if JSON has a place for what is in it and the layer that reads the
text rounds its decimals correctly.  This takes an invariant: in what an engine keeps, no object
repeats a key and no step of a trace gives `null` for a reason (`Session.WellFormed`).  Requests are
made of values in which no key is repeated; whatever is evaluated is one of those, in a context that
is one of those, and evaluation passes both on.
-/

namespace DecisionRules

section Outcomes

variable {ε ε' α β : Type} {x : Except ε α}

theorem map_eq_ok_iff {f : α → β} {b : β} : x.map f = .ok b ↔ ∃ a, x = .ok a ∧ f a = b := by
  cases x <;> simp [Except.map]

theorem mapError_eq_ok_iff {f : ε → ε'} {a : α} : x.mapError f = .ok a ↔ x = .ok a := by
  cases x <;> simp [Except.mapError]

end Outcomes

/-! ## What is asked and what is answered -/

/-- No object in a draft repeats a key. -/
structure RuleDraft.WellFormed (d : RuleDraft) : Prop where
  definition : d.definition.WellFormed
  regressionCases : ∀ c ∈ d.regressionCases, c.WellFormed

/-- No object in a request repeats a key. -/
def Request.WellFormed : Request → Prop
  | .create d | .createUnvalidated d => d.WellFormed
  | .replaceCases _ _ cases => ∀ c ∈ cases, c.WellFormed
  | .evaluate r => (∀ e ∈ r.logic, e.WellFormed) ∧ r.context.WellFormed
  | .regress r => ∀ c ∈ r.cases, c.WellFormed
  | _ => True

/-- The records in an answer are well-formed. -/
def Answer.WellFormed : Answer → Prop
  | .version v => v.WellFormed
  | .versions vs => ∀ v ∈ vs, v.WellFormed
  | .response r => r.WellFormed
  | .report r => r.WellFormed
  | .artifact a => a.WellFormed
  | .artifacts as => ∀ a ∈ as, a.WellFormed
  | .listing _ | .truth _ => True

namespace Catalog

variable {c c' : Catalog} {id : String} {now : Timestamp} {r : Request}

/-- Every version in a catalog is well-formed. -/
def WellFormed (c : Catalog) : Prop := ∀ id, ∀ v ∈ c.history id, v.WellFormed

theorem WellFormed.empty : Catalog.empty.WellFormed := fun _ _ hv => absurd hv List.not_mem_nil

theorem WellFormed.withHistory (h : c.WellFormed) {versions : List RuleVersion}
    (hversions : ∀ v ∈ versions, v.WellFormed) : (c.withHistory id versions).WellFormed := by
  intro other v hv
  rw [history, get?_withHistory] at hv
  split at hv
  · exact hversions v hv
  · exact h other v hv

theorem WellFormed.append (h : c.WellFormed) {d : RuleDraft} (hd : d.WellFormed) :
    (c.append d now).1.WellFormed ∧ (c.append d now).2.WellFormed := by
  rw [append_eq]
  have hmade : (draftVersion d (nextNumber (c.history d.stableId)) now).WellFormed :=
    ⟨hd.definition, hd.regressionCases⟩
  refine ⟨hmade, h.withHistory fun v hv => ?_⟩
  rcases List.mem_append.mp hv with hv | hv
  · exact h _ v hv
  · obtain rfl := List.mem_singleton.mp hv
    exact hmade

/-- A change of one version keeps all of them well-formed, if what it does to one does. -/
theorem WellFormed.change (h : c.WellFormed) {number : Nat} {before f : RuleVersion → RuleVersion}
    {changed : RuleVersion} (hbefore : ∀ v, v.WellFormed → (before v).WellFormed)
    (hf : ∀ v, v.WellFormed → (f v).WellFormed)
    (hchange : c.change id number before f = .ok (changed, c')) :
    changed.WellFormed ∧ c'.WellFormed := by
  obtain ⟨-, front, v, back, hsplit, -, -, rfl, rfl⟩ := change_eq_ok hchange
  have hall : ∀ u ∈ front ++ v :: back, u.WellFormed := by
    rw [← hsplit]
    intro u hu
    obtain ⟨w, hw, rfl⟩ := List.mem_map.mp hu
    exact hbefore w (h id w hw)
  rw [List.forall_mem_append, List.forall_mem_cons] at hall
  have hfv := hf v hall.2.1
  refine ⟨hfv, h.withHistory ?_⟩
  rw [List.forall_mem_append, List.forall_mem_cons]
  exact ⟨hall.1, hfv, hall.2.2⟩

theorem WellFormed.publish (h : c.WellFormed) {number : Nat} {notes : Option String}
    {v : RuleVersion} (hpublish : c.publish id number notes now = .ok (v, c')) :
    v.WellFormed ∧ c'.WellFormed := by
  have hdemote (u : RuleVersion) (hu : u.WellFormed) : (demote u).WellFormed := by
    obtain ⟨_, _, hdemoted⟩ := demote_eq_with u
    rw [hdemoted]
    exact ⟨hu.definition, hu.regressionCases⟩
  have hpromote (u : RuleVersion) (hu : u.WellFormed) : (promote notes now u).WellFormed :=
    ⟨hu.definition, hu.regressionCases⟩
  exact h.change hdemote hpromote hpublish

theorem WellFormed.replaceCases (h : c.WellFormed) {number : Nat} {cases : List RegressionCase}
    (hcases : ∀ r ∈ cases, r.WellFormed) {v : RuleVersion}
    (hreplace : c.replaceCases id number cases now = .ok (v, c')) :
    v.WellFormed ∧ c'.WellFormed := by
  have hreplaced (u : RuleVersion) (hu : u.WellFormed) :
      RuleVersion.WellFormed { u with regressionCases := cases, updatedAt := now } :=
    ⟨hu.definition, hcases⟩
  exact h.change (fun _ hu => hu) hreplaced hreplace

theorem WellFormed.versions (h : c.WellFormed) {versions : List RuleVersion}
    (hversions : c.versions id = .ok versions) : ∀ v ∈ versions, v.WellFormed := by
  obtain rfl : c.history id = versions := history_eq_of_versions hversions
  exact h id

theorem WellFormed.get (h : c.WellFormed) {version : Option Nat} {preferLatest : Bool}
    {v : RuleVersion} (hget : c.get id version preferLatest = .ok v) : v.WellFormed := by
  refine h id v (mem_history_of_get (fun hempty => ?_) hget)
  unfold Catalog.get at hget
  rw [Catalog.versions, hempty] at hget
  rcases version with _ | number <;> cases preferLatest <;> cases hget

/-- **A request of well-formed values leaves a catalog well-formed.** -/
theorem Effect.wellFormed {answer : Except EngineError Answer} (heffect : Effect now r answer c c')
    (h : c.WellFormed) (hr : r.WellFormed) : c'.WellFormed := by
  cases heffect with
  | appended asked _ =>
    obtain ⟨rfl, -⟩ | rfl := asked <;> exact (h.append hr).2
  | published hpublish => exact (h.publish hpublish).2
  | replaced _ hreplace => exact (h.replaceCases hr hreplace).2
  | cleared => exact .empty
  | failed => exact h
  | kept => exact h

/-- The version that a change of the catalog answers with is well-formed. -/
theorem Effect.wellFormed_answer {answer : Answer} (heffect : Effect now r (.ok answer) c c')
    (hchanges : r.changesCatalog = true) (h : c.WellFormed) (hr : r.WellFormed) :
    answer.WellFormed := by
  cases heffect with
  | appended asked _ =>
    obtain ⟨rfl, -⟩ | rfl := asked <;> exact (h.append hr).1
  | published hpublish => exact (h.publish hpublish).1
  | replaced _ hreplace => exact (h.replaceCases hr hreplace).1
  | cleared => trivial
  | kept hkept => exact absurd hchanges (by rw [hkept]; exact Bool.false_ne_true)

end Catalog

/-! ## Stores -/

namespace ArtifactStore

variable {s : ArtifactStore}

/-- Every artifact in a store is well-formed, whether it is listed or looked up. -/
structure WellFormed (s : ArtifactStore) : Prop where
  artifacts : ∀ a ∈ s.artifacts, a.WellFormed
  get? : ∀ id, ∀ a ∈ s.get? id, a.WellFormed

theorem WellFormed.empty : ArtifactStore.empty.WellFormed :=
  ⟨fun _ ha => absurd ha List.not_mem_nil, nofun⟩

theorem WellFormed.record (h : s.WellFormed) {a : Artifact} (ha : a.WellFormed) :
    (s.record a).WellFormed := by
  refine ⟨fun b hb => ?_, fun id b hb => ?_⟩
  · rcases List.mem_append.mp hb with hb | hb
    · exact h.artifacts b hb
    · obtain rfl := List.mem_singleton.mp hb
      exact ha
  · have hlookup : (s.record a).get? id = if id = a.id then some a else s.get? id :=
      KeyMap.get?_insert ..
    rw [hlookup] at hb
    split at hb
    · obtain rfl := Option.some.inj hb
      exact ha
    · exact h.get? id b hb

theorem WellFormed.recordAll {made : List Artifact} (hmade : ∀ a ∈ made, a.WellFormed) :
    ∀ {s : ArtifactStore}, s.WellFormed → (s.recordAll made).WellFormed := by
  induction made with
  | nil => exact fun h => h
  | cons a rest ih =>
    rw [List.forall_mem_cons] at hmade
    exact fun h => ih hmade.2 (h.record hmade.1)

end ArtifactStore

/-! ## Engines -/

/-- The record of an evaluation is well-formed as soon as what was evaluated is. -/
theorem Artifact.Records.wellFormed {a : Artifact} {stableId : Option String}
    {version : Option Nat} {definition context : Value}
    (h : a.Records stableId version definition context) (hdefinition : definition.WellFormed)
    (hcontext : context.WellFormed) : a.WellFormed := by
  obtain ⟨hresult, htrace⟩ := evaluate_wellFormed hdefinition hcontext h.replays
  exact ⟨h.definition_eq ▸ hdefinition, h.context_eq ▸ hcontext, hresult, htrace⟩

/-- So is how the cases of a regression run went. -/
theorem CaseOutcome.Reports.wellFormed {o : CaseOutcome} {definition : Value}
    {test : RegressionCase} (h : o.Reports definition test) (hdefinition : definition.WellFormed)
    (htest : test.WellFormed) : o.WellFormed := by
  obtain ⟨hresult, htrace⟩ := evaluate_wellFormed hdefinition htest.context h.evaluates
  exact ⟨h.expected_eq ▸ htest.expected, hresult, htrace⟩

theorem wellFormed_of_caseOutcomes {definition : Value} (hdefinition : definition.WellFormed)
    {cases : List RegressionCase} (hcases : ∀ test ∈ cases, test.WellFormed)
    {outcomes : List CaseOutcome} (h : caseOutcomes definition cases = .ok outcomes) :
    ∀ o ∈ outcomes, o.WellFormed := by
  intro o ho
  obtain ⟨test, htest, hreports⟩ := exists_reports_of_caseOutcomes h ho
  exact hreports.wellFormed hdefinition (hcases test htest)

namespace Engine

variable {src : Sources} {e : Engine} {r : Request}

/-- What an engine keeps is well-formed. -/
structure WellFormed (e : Engine) : Prop where
  catalog : e.catalog.WellFormed
  store : e.journal.store.WellFormed

/-- What is evaluated is part of the request, or of the catalog. -/
theorem wellFormed_of_target (h : e.catalog.WellFormed) {q : EvaluationRequest}
    (hlogic : ∀ e ∈ q.logic, e.WellFormed) {definition : Value} {stableId : Option String}
    {version : Option Nat} (htarget : target e.catalog q = .ok (definition, stableId, version)) :
    definition.WellFormed := by
  rcases hq : q.logic with _ | logic
  · obtain ⟨id, rule, hget, rfl, -⟩ := target_of_logic_none hq htarget
    exact (h.get hget).definition
  · rw [target, hq] at htarget
    obtain ⟨rfl, -⟩ := Prod.mk.inj (Except.ok.inj htarget)
    exact hlogic _ hq

theorem wellFormed_chosen {q : RegressionRequest} {rule : RuleVersion}
    (hcases : ∀ c ∈ q.cases, c.WellFormed) (hrule : rule.WellFormed) :
    ∀ c ∈ q.chosen rule, c.WellFormed := by
  rw [RegressionRequest.chosen]
  split
  · exact hrule.regressionCases
  · exact hcases

/-- **What is recorded is well-formed.** -/
theorem MayRecord.wellFormed {a : Artifact} (hmay : e.MayRecord r a) (h : e.catalog.WellFormed)
    (hr : r.WellFormed) : a.WellFormed := by
  cases hmay with
  | evaluated found records =>
    exact records.wellFormed (wellFormed_of_target h hr.1 found) hr.2
  | tested found chosen records =>
    have hrule := h.get found
    exact records.wellFormed hrule.definition (wellFormed_chosen hr hrule _ chosen).context

/-- **What a regression run reports is how the chosen cases go** with the version that it finds. -/
theorem exists_caseOutcomes_of_regress {q : RegressionRequest} {report : RegressionReport}
    {outcome : Engine} (h : e.regress src q = (.ok report, outcome)) :
    ∃ rule, e.catalog.get q.stableId q.version q.preferLatest = .ok rule ∧
      caseOutcomes rule.definition (q.chosen rule) = .ok report.cases := by
  obtain ⟨err, hregress⟩ | ⟨rule, hget, -, hregress⟩ := regress_cases src q e
  · rw [hregress] at h
    cases h
  · rw [hregress] at h
    obtain ⟨outcomes, houtcomes, rfl⟩ := map_eq_ok_iff.mp (mapError_eq_ok_iff.mp (Prod.mk.inj h).1)
    rw [Journal.fst_runCases] at houtcomes
    exact ⟨rule, hget, houtcomes⟩

/-- **What an engine answers is well-formed.** -/
theorem WellFormed.answer (h : e.WellFormed) (hr : r.WellFormed) {answer : Answer}
    (hanswer : (e.perform src r).1 = .ok answer) : answer.WellFormed := by
  have heffect := effect_perform src r e
  rw [hanswer] at heffect
  by_cases hchanges : r.changesCatalog = true
  · exact heffect.wellFormed_answer hchanges h.catalog hr
  rcases r with d | d | ⟨id, number, notes⟩ | ⟨id, version, latest⟩ | _ | id | ⟨id, number, cases⟩ |
    _ | _ | _ | q | q | id | id
  case get =>
    obtain ⟨v, hv, rfl⟩ := map_eq_ok_iff.mp hanswer
    exact h.catalog.get (mapError_eq_ok_iff.mp hv)
  case versions =>
    obtain ⟨vs, hvs, rfl⟩ := map_eq_ok_iff.mp hanswer
    exact h.catalog.versions (mapError_eq_ok_iff.mp hvs)
  case evaluate =>
    obtain ⟨response, hresponse, rfl⟩ := map_eq_ok_iff.mp hanswer
    obtain ⟨err, hr'⟩ | ⟨definition, stableId, version, evaluation, hfound, heval, hr'⟩ :=
      evaluate_cases src q e
    · rw [hr'] at hresponse
      cases hresponse
    · rw [hr'] at hresponse
      obtain rfl := Except.ok.inj hresponse
      obtain ⟨hresult, htrace⟩ :=
        evaluate_wellFormed (wellFormed_of_target h.catalog hr.1 hfound) hr.2 heval
      exact ⟨hresult, htrace⟩
  case regress =>
    obtain ⟨found, hfound, rfl⟩ := map_eq_ok_iff.mp hanswer
    obtain ⟨rule, hget, houtcomes⟩ :=
      exists_caseOutcomes_of_regress (Prod.ext hfound rfl : e.regress src q = (.ok found, _))
    have hrule := h.catalog.get hget
    exact ⟨wellFormed_of_caseOutcomes hrule.definition (wellFormed_chosen hr hrule) houtcomes⟩
  case artifact =>
    obtain ⟨a, ha, rfl⟩ := map_eq_ok_iff.mp hanswer
    rw [artifact] at ha
    rcases hfound : e.journal.store.get? id with _ | found
    · rw [hfound] at ha
      cases ha
    · rw [hfound] at ha
      obtain rfl := Except.ok.inj ha
      exact h.store.get? id _ hfound
  case artifactsOf =>
    obtain rfl := Except.ok.inj hanswer
    exact fun a ha => h.store.artifacts a (List.mem_of_mem_filter ha)
  case create | createUnvalidated | publish | replaceCases | clearCatalog =>
    exact absurd rfl hchanges
  case list | clearArtifacts | hasNoArtifacts =>
    obtain rfl := Except.ok.inj hanswer
    trivial

/-- **A request of well-formed values leaves an engine well-formed.** -/
theorem WellFormed.perform (h : e.WellFormed) (hr : r.WellFormed) :
    (e.perform src r).2.WellFormed := by
  refine ⟨(effect_perform src r e).wellFormed h.catalog hr, ?_⟩
  by_cases hclear : r = .clearArtifacts
  · subst hclear
    exact .empty
  · obtain ⟨made, hmay, hstore⟩ := store_perform src e hclear
    rw [hstore]
    exact h.store.recordAll fun a ha => (hmay a ha).wellFormed h.catalog hr

end Engine

/-! ## Sessions -/

namespace Session

variable {ι : Type} {src : Sources} {s : Session ι}

/-- What the engines of a session keep is well-formed. -/
structure WellFormed (s : Session ι) : Prop where
  catalogs : ∀ i, (s.catalogs i).WellFormed
  store : s.journal.store.WellFormed

theorem WellFormed.empty : (empty : Session ι).WellFormed := ⟨fun _ => .empty, .empty⟩

theorem WellFormed.engine (h : s.WellFormed) (who : ι) : (s.engine who).WellFormed :=
  ⟨h.catalogs who, h.store⟩

variable [DecidableEq ι]

theorem WellFormed.perform (h : s.WellFormed) (who : ι) {r : Request} (hr : r.WellFormed) :
    (s.perform src who r).2.WellFormed := by
  have hengine : ((s.engine who).perform src r).2.WellFormed := (h.engine who).perform hr
  refine ⟨fun i => ?_, hengine.store⟩
  by_cases hi : i = who
  · subst hi
    exact (s.effect_perform src i r).wellFormed (h.catalogs i) hr
  · rw [catalogs_perform_of_ne hi]
    exact h.catalogs i

/-- **What is asked of well-formed values keeps a session well-formed.** -/
theorem WellFormed.run : ∀ {requests : List (ι × Request)}, (∀ q ∈ requests, q.2.WellFormed) →
    ∀ {s : Session ι}, s.WellFormed → (s.run src requests).2.WellFormed
  | [], _, _, h => h
  | (who, _) :: _, hrequests, _, h => by
    rw [List.forall_mem_cons] at hrequests
    exact run hrequests.2 (h.perform who hrequests.1)

end Session

end DecisionRules
