import DecisionRules.Proofs.Catalog.Change
import DecisionRules.Proofs.Engine.Step

/-!
# Proofs/Catalog/History — versions are added, and what they decide stays

What a rule decided at some time can be looked up later, because a version keeps its place and what
it decides (`Session.versions_extend_of_run`).  Every effect on a catalog either leaves it alone or
puts one version list in place that goes on from the one before (`Catalog.Effect.rewrites`); that
other rules stay out of it, and that runs of any length add up, both follow.
-/

namespace DecisionRules

/-! ## What lasts -/

/-- The part of a version that is fixed when the version is created. -/
structure RuleVersion.Lasting where
  stableId : String
  version : Nat
  name : String
  description : Option String
  labels : KeyMap String
  definition : Value
  createdAt : Timestamp

/-- What of a version lasts. -/
def RuleVersion.lasting (v : RuleVersion) : Lasting :=
  ⟨v.stableId, v.version, v.name, v.description, v.labels, v.definition, v.createdAt⟩

/-- The rest is the status, the notes, the cases, and the times that go with them. -/
theorem RuleVersion.eq_with_of_lasting {v w : RuleVersion} (h : v.lasting = w.lasting) :
    w = { v with
      status := w.status
      updatedAt := w.updatedAt
      publishedAt := w.publishedAt
      revisionNotes := w.revisionNotes
      regressionCases := w.regressionCases } := by
  obtain ⟨hid, hversion, hname, hdescription, hlabels, hdefinition, hcreated⟩ :=
    RuleVersion.Lasting.mk.inj h
  rw [hid, hversion, hname, hdescription, hlabels, hdefinition, hcreated]

@[simp] theorem Catalog.lasting_demote (v : RuleVersion) :
    (Catalog.demote v).lasting = v.lasting := by
  obtain ⟨_, _, h⟩ := Catalog.demote_eq_with v
  rw [h]
  rfl

/-- The rule whose versions a request may add to or change. -/
def Request.changedRule? : Request → Option String
  | .create d | .createUnvalidated d => some d.stableId
  | .publish id _ _ | .replaceCases id _ _ => some id
  | _ => none

/-! ## One step -/

namespace Catalog

variable {c c' c'' : Catalog} {id : String}

/-- **The versions of a rule go on in a later catalog**: those there are keep their places and what
lasts of them. -/
def Continues (c c' : Catalog) (id : String) : Prop :=
  ∀ earlier, c.versions id = .ok earlier → ∃ later, c'.versions id = .ok later ∧
    earlier.map RuleVersion.lasting <+: later.map RuleVersion.lasting

theorem Continues.of_versions_eq (h : c'.versions id = c.versions id) : c.Continues c' id :=
  fun earlier hearlier => ⟨earlier, h.trans hearlier, List.prefix_refl _⟩

theorem Continues.trans (h : c.Continues c' id) (h' : c'.Continues c'' id) :
    c.Continues c'' id := by
  intro earlier hearlier
  obtain ⟨between, hbetween, hprefix⟩ := h earlier hearlier
  obtain ⟨later, hlater, hprefix'⟩ := h' between hbetween
  exact ⟨later, hlater, hprefix.trans hprefix'⟩

/-- A version list put in place that goes on from the one before. -/
theorem Continues.withHistory {versions : List RuleVersion}
    (h : (c.history id).map RuleVersion.lasting <+: versions.map RuleVersion.lasting) :
    c.Continues (c.withHistory id versions) id := by
  intro earlier hearlier
  have hhistory : c.history id = earlier := history_eq_of_versions hearlier
  exact ⟨versions, versions_withHistory c id versions, hhistory ▸ h⟩

/-- A change that leaves what lasts alone puts a version list in place on which the same lasts. -/
theorem lasting_of_change {number : Nat} {before f : RuleVersion → RuleVersion}
    {changed : RuleVersion} (h : c.change id number before f = .ok (changed, c'))
    (hbefore : ∀ v, (before v).lasting = v.lasting) (hf : ∀ v, (f v).lasting = v.lasting) :
    ∃ later, c' = c.withHistory id later ∧
      (c.history id).map RuleVersion.lasting <+: later.map RuleVersion.lasting := by
  obtain ⟨-, front, v, back, hsplit, -, -, -, rfl⟩ := change_eq_ok h
  have hkept := map_of_change hbefore hsplit (hf v)
  exact ⟨_, rfl, [], by rw [List.append_nil, hkept]⟩

/-- **What a request can do to a catalog it does not empty**: nothing, or put a version list in
place for the rule it names, which goes on from the one before. -/
theorem Effect.rewrites {now : Timestamp} {r : Request} {answer : Except EngineError Answer}
    (h : Effect now r answer c c') (hclear : r ≠ .clearCatalog) :
    c' = c ∨ ∃ id later, r.changedRule? = some id ∧ c' = c.withHistory id later ∧
      (c.history id).map RuleVersion.lasting <+: later.map RuleVersion.lasting := by
  cases h with
  | @appended _ d _ asked =>
    have hrule : r.changedRule? = some d.stableId := by
      obtain ⟨rfl, -⟩ | rfl := asked <;> rfl
    refine .inr ⟨d.stableId, _, hrule, rfl, ?_⟩
    rw [List.map_append]
    exact List.prefix_append _ _
  | @published id _ _ _ _ _ hpublish =>
    obtain ⟨later, hlater, hprefix⟩ := lasting_of_change hpublish lasting_demote fun _ => rfl
    exact .inr ⟨id, later, rfl, hlater, hprefix⟩
  | @replaced id _ _ _ _ _ _ hreplace =>
    obtain ⟨later, hlater, hprefix⟩ := lasting_of_change hreplace (fun _ => rfl) fun _ => rfl
    exact .inr ⟨id, later, rfl, hlater, hprefix⟩
  | cleared => exact absurd rfl hclear
  | failed => exact .inl rfl
  | kept => exact .inl rfl

/-- **Only the rule that a request names is touched.** -/
theorem Effect.versions_eq_of_ne {now : Timestamp} {r : Request}
    {answer : Except EngineError Answer} (h : Effect now r answer c c')
    (hclear : r ≠ .clearCatalog) (hother : r.changedRule? ≠ some id) :
    c'.versions id = c.versions id := by
  obtain rfl | ⟨named, later, hnamed, rfl, -⟩ := h.rewrites hclear
  · rfl
  · have hne : id ≠ named := by
      rintro rfl
      exact hother hnamed
    exact versions_withHistory_of_ne hne c later

theorem Effect.continues {now : Timestamp} {r : Request} {answer : Except EngineError Answer}
    (h : Effect now r answer c c') (hclear : r ≠ .clearCatalog) (id : String) :
    c.Continues c' id := by
  by_cases hnamed : r.changedRule? = some id
  · obtain rfl | ⟨named, later, hnamed', rfl, hprefix⟩ := h.rewrites hclear
    · exact .of_versions_eq rfl
    · obtain rfl : id = named := Option.some.inj (hnamed.symm.trans hnamed')
      exact .withHistory hprefix
  · exact .of_versions_eq (h.versions_eq_of_ne hclear hnamed)

end Catalog

/-! ## Whole runs -/

namespace Session

variable {ι : Type} [DecidableEq ι] {who : ι} {requests : List (ι × Request)}

/-- A request to one engine leaves alone the versions of every rule it does not name, and those of
every other engine. -/
theorem versions_perform (src : Sources) (s : Session ι) {i : ι} {r : Request} {id : String}
    (hclear : i = who → r ≠ .clearCatalog) (hother : i = who → r.changedRule? ≠ some id) :
    ((s.perform src i r).2.catalogs who).versions id = (s.catalogs who).versions id := by
  by_cases hi : i = who
  · subst hi
    exact (s.effect_perform src i r).versions_eq_of_ne (hclear rfl) (hother rfl)
  · rw [catalogs_perform_of_ne (Ne.symm hi)]

/-- **What a request that does not empty it does to a catalog, a run does to it**: a relation that
holds along each step from a state that is in order, and adds up, holds along the run. -/
theorem catalogs_run {src : Sources} {P : Session ι → Prop} {R : Catalog → Catalog → Prop}
    (hrefl : ∀ c, R c c) (htrans : ∀ {c c' c''}, R c c' → R c' c'' → R c c'')
    (hkept : ∀ i r s, P s → P (s.perform src i r).2)
    (hstep : ∀ r s, P s → r ≠ .clearCatalog →
      R (s.catalogs who) ((s.perform src who r).2.catalogs who)) :
    ∀ {requests : List (ι × Request)} {s : Session ι}, P s →
      (who, Request.clearCatalog) ∉ requests →
        R (s.catalogs who) ((s.run src requests).2.catalogs who)
  | [], s, _, _ => hrefl (s.catalogs who)
  | (i, r) :: rest, s, hs, hclear => by
    have hfirst : R (s.catalogs who) ((s.perform src i r).2.catalogs who) := by
      by_cases hi : i = who
      · subst hi
        refine hstep r s hs fun hr => hclear ?_
        rw [hr]
        exact List.mem_cons_self
      · rw [catalogs_perform_of_ne (Ne.symm hi)]
        exact hrefl (s.catalogs who)
    have hrest : (who, Request.clearCatalog) ∉ rest :=
      fun hmem => hclear (List.mem_cons_of_mem _ hmem)
    exact htrans hfirst (catalogs_run hrefl htrans hkept hstep (hkept i r s hs) hrest)

/-- **The versions of a rule go on through every run** that does not empty the catalog. -/
theorem continues_run (src : Sources) (id : String) {requests : List (ι × Request)} (s : Session ι)
    (hclear : (who, Request.clearCatalog) ∉ requests) :
    (s.catalogs who).Continues ((s.run src requests).2.catalogs who) id := by
  exact catalogs_run (P := fun _ => True) (R := fun c c' => c.Continues c' id)
    (fun _ => .of_versions_eq rfl) .trans (fun _ _ _ _ => trivial)
    (fun r s _ hr => (s.effect_perform src who r).continues hr id) trivial hclear

/-- **The history of a rule is append-only.**  Over a run that does not empty the catalog of an
engine, every version keeps its position, and nothing of it changes but its status, its notes, its
cases and the times that go with them.  And no request of the run, to whichever engine, changes
anything about a rule of that engine unless it names this rule. -/
theorem versions_extend_of_run (src : Sources) (s : Session ι)
    (hclear : (who, Request.clearCatalog) ∉ requests) (id : String) :
    (∀ earlier, (s.catalogs who).versions id = .ok earlier →
      ∃ later, ((s.run src requests).2.catalogs who).versions id = .ok later ∧
        ∀ (i : Nat) v, earlier[i]? = some v → ∃ w, later[i]? = some w ∧
          w = { v with
            status := w.status
            updatedAt := w.updatedAt
            publishedAt := w.publishedAt
            revisionNotes := w.revisionNotes
            regressionCases := w.regressionCases }) ∧
      ∀ front i r back, requests = front ++ (i, r) :: back →
        (i = who → r.changedRule? ≠ some id) →
          (((s.run src front).2.perform src i r).2.catalogs who).versions id =
            ((s.run src front).2.catalogs who).versions id := by
  refine ⟨fun earlier hearlier => ?_, fun front i r back hsplit hother => ?_⟩
  · obtain ⟨later, hlater, hprefix⟩ := continues_run src id s hclear earlier hearlier
    refine ⟨later, hlater, fun i v hv => ?_⟩
    obtain ⟨hi, rfl⟩ := List.getElem?_eq_some_iff.mp hv
    have hplace := List.prefix_iff_getElem?.mp hprefix i (by rwa [List.length_map])
    rw [List.getElem?_map, List.getElem_map] at hplace
    obtain ⟨w, hw, hsame⟩ := Option.map_eq_some_iff.mp hplace
    exact ⟨w, hw, RuleVersion.eq_with_of_lasting hsame.symm⟩
  · refine versions_perform src _ (fun hi hr => hclear ?_) hother
    rw [hsplit, hi, hr]
    exact List.mem_append_right _ List.mem_cons_self

/-- A rule that is put in force and revised, while another engine empties its catalog. -/
theorem versions_extend_of_run_revised :
    let draft : RuleDraft := ⟨"yes", "Yes", none, .bool true, KeyMap.empty, none, []⟩
    let src : Sources := ⟨fun n => ⟨n, 0⟩, fun n => toString n⟩
    let s := (run src [(true, .create draft)] empty).2
    let requests : List (Bool × Request) := [(true, .publish "yes" 1 (some "go")),
      (false, .clearCatalog), (true, .create { draft with definition := .bool false })]
    ∃ v w later, (s.catalogs true).versions "yes" = .ok [v] ∧
      ((s.run src requests).2.catalogs true).versions "yes" = .ok later ∧ later[0]? = some w ∧
      w.isPublished = true ∧ w.definition = v.definition ∧ w.createdAt = v.createdAt := by
  intro draft src s requests
  have hclear : (true, Request.clearCatalog) ∉ requests := by simp [requests]
  obtain ⟨hextend, -⟩ := versions_extend_of_run src s hclear "yes"
  have hone : (((s.catalogs true).versions "yes").toOption.getD []).length = 1 := by
    decide +kernel
  rcases hearlier : (s.catalogs true).versions "yes" with err | earlier
  · rw [hearlier] at hone
    cases hone
  · rw [hearlier] at hone
    obtain ⟨v, rfl⟩ := List.length_eq_one_iff.mp hone
    obtain ⟨later, hlater, hkept⟩ := hextend [v] hearlier
    obtain ⟨w, hw, hsame⟩ := hkept 0 v rfl
    have hpublished : ((((s.run src requests).2.catalogs true).versions "yes").toOption.getD
        [])[0]?.map (·.isPublished) = some true := by
      decide +kernel
    rw [hlater] at hpublished
    change later[0]?.map (·.isPublished) = some true at hpublished
    rw [hw] at hpublished
    exact ⟨v, w, later, rfl, hlater, hw, Option.some.inj hpublished, by rw [hsame], by rw [hsame]⟩

end Session

end DecisionRules
