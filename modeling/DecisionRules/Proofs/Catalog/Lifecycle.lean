import DecisionRules.Proofs.Engine.Step

/-!
# Proofs/Catalog/Lifecycle — what can become of a version

A version list goes on in two ways: versions come behind those that are there, and each of those
stays in its place and becomes one of four things (`RuleVersion.Becomes`).  A request that does not
empty the catalog does this to every version list and nothing else (`Catalog.Effect.history`).

So a property that every new version has, and that survives the four, is one of all versions,
however they came about (`Catalog.Effect.forall_versions`).
-/

namespace DecisionRules

theorem RuleStatus.draft_ne_published : RuleStatus.draft ≠ .published := nofun

/-- **What a request can make of a version** at a time. -/
inductive RuleVersion.Becomes (now : Timestamp) (v : RuleVersion) : RuleVersion → Prop
  | kept : Becomes now v v
  | demoted : Becomes now v (Catalog.demote v)
  | promoted {notes : Option String} : Becomes now v (Catalog.promote notes now v)
  /-- It gets other cases, which have names. -/
  | recased {cases : List RegressionCase} (named : checkCaseNames cases = .ok ()) :
      Becomes now v { v with regressionCases := cases, updatedAt := now }

namespace Catalog

variable {c c' : Catalog} {now : Timestamp}

/-- **What a request can make of a version list** at a time: each version stays in its place, and
new ones come from drafts that are in order. -/
def GoesOn (now : Timestamp) (id : String) (earlier later : List RuleVersion) : Prop :=
  ∃ kept added, later = kept ++ added ∧ List.Forall₂ (RuleVersion.Becomes now) earlier kept ∧
    ∀ v ∈ added, ∃ d number, d.check = .ok () ∧ d.stableId = id ∧ v = draftVersion d number now

theorem GoesOn.of_forall₂ {id : String} {earlier later : List RuleVersion}
    (h : List.Forall₂ (RuleVersion.Becomes now) earlier later) : GoesOn now id earlier later :=
  ⟨later, [], (List.append_nil later).symm, h, fun _ hv => absurd hv List.not_mem_nil⟩

theorem GoesOn.refl (now : Timestamp) (id : String) (versions : List RuleVersion) :
    GoesOn now id versions versions :=
  .of_forall₂ (List.forall₂_same.mpr fun _ _ => .kept)

theorem history_withHistory_of_ne {id other : String} (h : other ≠ id) (c : Catalog)
    (versions : List RuleVersion) :
    (c.withHistory id versions).history other = c.history other := by
  rw [history, get?_withHistory, if_neg h, history]

/-- A version that is put in force is the same whether it was taken out of force first or not. -/
theorem promote_demote (notes : Option String) (now : Timestamp) (v : RuleVersion) :
    promote notes now (demote v) = promote notes now v := by
  obtain ⟨_, _, h⟩ := demote_eq_with v
  rw [h]
  rfl

/-- **A change goes through a version list version by version**: a relation that holds between what
goes into the change and what comes out of it holds all along the list. -/
theorem forall₂_of_change {R : RuleVersion → RuleVersion → Prop} {id : String} {number : Nat}
    {before f : RuleVersion → RuleVersion} {changed : RuleVersion}
    (h : c.change id number before f = .ok (changed, c')) (hrefl : ∀ v, R v v)
    (hbefore : ∀ v, R v (before v)) (hf : ∀ v, R v (f (before v))) (other : String) :
    List.Forall₂ R (c.history other) (c'.history other) := by
  obtain ⟨-, front, v, back, hsplit, -, -, -, rfl⟩ := change_eq_ok h
  by_cases hother : other = id
  · subst hother
    obtain ⟨front, rest, hhistory, rfl, hrest⟩ := List.map_eq_append_iff.mp hsplit
    obtain ⟨v, back, rfl, rfl, rfl⟩ := List.map_eq_cons_iff.mp hrest
    have hmap (versions : List RuleVersion) : List.Forall₂ R versions (versions.map before) :=
      List.forall₂_map_right_iff.mpr (List.forall₂_same.mpr fun u _ => hbefore u)
    rw [history_withHistory_self, hhistory]
    exact List.rel_append (hmap front) (.cons (hf v) (hmap back))
  · rw [history_withHistory_of_ne hother]
    exact List.forall₂_same.mpr fun u _ => hrefl u

/-- Cases that may replace those of a version have names. -/
theorem checkCaseNames_of_checkReplacement {cases : List RegressionCase}
    (h : checkReplacement cases = .ok ()) : checkCaseNames cases = .ok () := by
  rw [checkReplacement] at h
  split at h
  · cases h
  · rcases hnames : checkCaseNames cases with fault | ⟨⟩
    · rw [hnames] at h
      cases h
    · rfl

/-- **What a request that does not empty a catalog does to the version list of a rule.** -/
theorem Effect.history {r : Request} {answer : Except EngineError Answer}
    (h : Effect now r answer c c') (hclear : r ≠ .clearCatalog) (id : String) :
    GoesOn now id (c.history id) (c'.history id) := by
  cases h with
  | @appended _ d _ _ inOrder =>
    rw [append_eq]
    by_cases hid : id = d.stableId
    · subst hid
      rw [history_withHistory_self]
      refine ⟨_, _, rfl, List.forall₂_same.mpr fun _ _ => .kept, fun v hv => ?_⟩
      exact ⟨d, _, inOrder, rfl, List.mem_singleton.mp hv⟩
    · rw [history_withHistory_of_ne hid]
      exact .refl ..
  | @published _ _ notes _ _ _ hpublish =>
    have hpromoted (v : RuleVersion) :
        RuleVersion.Becomes now v (promote notes now (demote v)) := by
      rw [promote_demote]
      exact .promoted
    exact .of_forall₂ (forall₂_of_change hpublish (fun _ => .kept) (fun _ => .demoted) hpromoted id)
  | replaced inOrder hreplace =>
    have hnamed := checkCaseNames_of_checkReplacement inOrder
    exact .of_forall₂ <|
      forall₂_of_change hreplace (fun _ => .kept) (fun _ => .kept) (fun _ => .recased hnamed) id
  | cleared => exact absurd rfl hclear
  | failed => exact .refl ..
  | kept => exact .refl ..

/-- Emptying a catalog empties it. -/
theorem Effect.eq_of_clearCatalog {answer : Except EngineError Answer}
    (h : Effect now .clearCatalog answer c c') : c' = empty ∨ c' = c := by
  cases h with
  | appended asked =>
    obtain ⟨h, -⟩ | h := asked
    · cases h
    · cases h
  | cleared => exact .inl rfl
  | failed => exact .inr rfl
  | kept h => cases h

/-- Each version that was there has become one that is there. -/
theorem GoesOn.exists_becomes {id : String} {earlier later : List RuleVersion}
    (h : GoesOn now id earlier later) {v : RuleVersion} (hv : v ∈ earlier) :
    ∃ w ∈ later, RuleVersion.Becomes now v w := by
  obtain ⟨kept, added, rfl, hkept, -⟩ := h
  obtain ⟨i, rfl⟩ := List.mem_iff_get.mp hv
  have hi : (i : Nat) < kept.length := Nat.lt_of_lt_of_eq i.2 hkept.length_eq
  exact ⟨kept[i], List.mem_append_left _ (List.getElem_mem hi), hkept.get i.2 hi⟩

/-- **Each version that is there was made of one that was there, or of a draft.** -/
theorem GoesOn.origin {id : String} {earlier later : List RuleVersion}
    (h : GoesOn now id earlier later) {w : RuleVersion} (hw : w ∈ later) :
    (∃ v ∈ earlier, RuleVersion.Becomes now v w) ∨
      ∃ d number, d.check = .ok () ∧ d.stableId = id ∧ w = draftVersion d number now := by
  obtain ⟨kept, added, rfl, hkept, hadded⟩ := h
  obtain hold | hnew := List.mem_append.mp hw
  · left
    obtain ⟨i, rfl⟩ := List.mem_iff_get.mp hold
    have hi : (i : Nat) < earlier.length := Nat.lt_of_lt_of_eq i.2 hkept.length_eq.symm
    exact ⟨earlier[i], List.getElem_mem hi, hkept.get hi i.2⟩
  · exact .inr (hadded w hnew)

/-- **What every new version has and nothing that becomes of a version takes away, all versions of
a catalog go on having.** -/
theorem Effect.forall_versions {P : String → RuleVersion → Prop} {r : Request}
    {answer : Except EngineError Answer} (h : Effect now r answer c c')
    (hmade : ∀ d number, d.check = .ok () → P d.stableId (draftVersion d number now))
    (hbecomes : ∀ id v w, RuleVersion.Becomes now v w → P id v → P id w)
    (hall : ∀ id, ∀ v ∈ c.history id, P id v) : ∀ id, ∀ v ∈ c'.history id, P id v := by
  by_cases hclear : r = .clearCatalog
  · subst hclear
    obtain rfl | rfl := h.eq_of_clearCatalog
    · exact fun _ _ hv => absurd hv List.not_mem_nil
    · exact hall
  · intro id w hw
    obtain ⟨v, hv, hbecome⟩ | ⟨d, number, hcheck, rfl, rfl⟩ := (h.history hclear id).origin hw
    · exact hbecomes id v w hbecome (hall id v hv)
    · exact hmade d number hcheck

end Catalog

namespace Session

variable {ι : Type} [DecidableEq ι]

/-- **So do all versions of every catalog of a session**, after every run. -/
theorem forall_versions_run {P : String → RuleVersion → Prop}
    (hmade : ∀ d number now, d.check = .ok () → P d.stableId (Catalog.draftVersion d number now))
    (hbecomes : ∀ now id v w, RuleVersion.Becomes now v w → P id v → P id w) (src : Sources)
    (requests : List (ι × Request)) (who : ι) (id : String) :
    ∀ v ∈ ((run src requests empty).2.catalogs who).history id, P id v := by
  let Holds (s : Session ι) : Prop := ∀ i id, ∀ v ∈ (s.catalogs i).history id, P id v
  have hstep (i : ι) (r : Request) (s : Session ι) (h : Holds s) : Holds (s.perform src i r).2 := by
    intro j
    by_cases hj : j = i
    · subst hj
      exact (s.effect_perform src j r).forall_versions (fun d number => hmade d number _)
        (hbecomes _) (h j)
    · rw [catalogs_perform_of_ne hj]
      exact h j
  have hempty : Holds empty := fun _ _ _ hv => absurd hv List.not_mem_nil
  exact run_invariant hstep requests hempty who id

end Session

end DecisionRules
