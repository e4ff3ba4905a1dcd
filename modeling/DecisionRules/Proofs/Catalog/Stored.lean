import DecisionRules.Proofs.Catalog.Lifecycle
import DecisionRules.Proofs.Catalog.Tally

/-!
# Proofs/Catalog/Stored — what is stored is in order

Drafts are checked where versions are created, cases once more where they replace others, and
nothing is checked afterwards.  Still every version in a catalog is in order at any time
(`Session.inOrder_of_run`): a draft that passes its check becomes a version in order
(`RuleDraft.inOrder_draftVersion`), and nothing that becomes of a version puts it out of order
(`RuleVersion.Becomes.inOrder`).  The status and the time a version was put in force are written one
after the other, but never one without the other.
-/

namespace DecisionRules

/-- **A version is in order** under an id. -/
structure RuleVersion.InOrder (id : String) (v : RuleVersion) : Prop where
  stableId_eq : v.stableId = id
  isValid : StableId.isValid id = true
  /-- The name shows something. -/
  named : ∃ c ∈ v.name.toList, Text.isBlank c = false
  /-- The definition defines something. -/
  defined : v.definition ≠ .null ∧ v.definition ≠ .string "" ∧ v.definition ≠ .array [] ∧
    v.definition ≠ .object []
  casesNamed : ∀ c ∈ v.regressionCases, c.name ≠ ""
  /-- There is a time at which the version was put in force just as long as it is in force. -/
  publishedAt_iff : v.publishedAt.isSome = true ↔ v.status = .published

/-! ## What passes a check -/

/-- **Names of cases pass the check if there is none that is empty.** -/
theorem checkCaseNames_eq_ok_iff {cases : List RegressionCase} :
    checkCaseNames cases = .ok () ↔ ∀ c ∈ cases, c.name ≠ "" := by
  have hnone : cases.findIdx? (fun c : RegressionCase => c.name.isEmpty) = none ↔
      ∀ c ∈ cases, c.name ≠ "" := by
    simp only [List.findIdx?_eq_none_iff, String.isEmpty_eq_false_iff, ne_eq]
  rw [← hnone, checkCaseNames]
  rcases cases.findIdx? (fun c : RegressionCase => c.name.isEmpty) with _ | position
  · exact iff_of_true rfl rfl
  · exact iff_of_false nofun nofun

/-- A definition that is not empty is none of the four that are. -/
theorem Value.isEmptyDefinition_eq_false_iff {v : Value} : v.isEmptyDefinition = false ↔
    v ≠ .null ∧ v ≠ .string "" ∧ v ≠ .array [] ∧ v ≠ .object [] := by
  rcases v with _ | b | n | s | items | entries <;> simp [isEmptyDefinition]

/-- **What a draft that passes its check is like.** -/
theorem RuleDraft.of_check {d : RuleDraft} (h : d.check = .ok ()) :
    StableId.isValid d.stableId = true ∧ Text.isBlankText d.name = false ∧
      d.definition.isEmptyDefinition = false ∧ checkCaseNames d.regressionCases = .ok () := by
  rw [check] at h
  split at h
  · cases h
  split at h
  · cases h
  split at h
  · cases h
  · simp_all

/-- **A draft that passes its check becomes a version in order.** -/
theorem RuleDraft.inOrder_draftVersion {d : RuleDraft} (h : d.check = .ok ()) (number : Nat)
    (now : Timestamp) : (Catalog.draftVersion d number now).InOrder d.stableId := by
  obtain ⟨hid, hname, hdefinition, hcases⟩ := of_check h
  have hnamed : ∃ c ∈ d.name.toList, Text.isBlank c = false := by
    simpa [Text.isBlankText] using hname
  exact ⟨rfl, hid, hnamed, Value.isEmptyDefinition_eq_false_iff.mp hdefinition,
    checkCaseNames_eq_ok_iff.mp hcases,
    iff_of_false Bool.false_ne_true RuleStatus.draft_ne_published⟩

/-! ## What becomes of a version in order -/

namespace RuleVersion

variable {now : Timestamp} {id : String} {v w : RuleVersion}

/-- A version in order that is taken out of force loses its status and its time, or has had
neither. -/
theorem InOrder.demote (h : v.InOrder id) : (Catalog.demote v).InOrder id := by
  rw [Catalog.demote]
  split
  · exact { h with
      publishedAt_iff := iff_of_false Bool.false_ne_true RuleStatus.draft_ne_published }
  · exact h

/-- **Nothing that becomes of a version puts it out of order.** -/
theorem Becomes.inOrder (h : Becomes now v w) (hv : v.InOrder id) : w.InOrder id := by
  cases h with
  | kept => exact hv
  | demoted => exact hv.demote
  | promoted => exact { hv with publishedAt_iff := iff_of_true rfl rfl }
  | recased named => exact { hv with casesNamed := checkCaseNames_eq_ok_iff.mp named }

end RuleVersion

namespace Session

variable {ι : Type} [DecidableEq ι]

/-- Every version of every catalog is in order, after every run. -/
theorem inOrder_of_mem_history (src : Sources) (requests : List (ι × Request)) (who : ι)
    (id : String) : ∀ v ∈ ((run src requests empty).2.catalogs who).history id, v.InOrder id :=
  forall_versions_run (fun _ number now hcheck => RuleDraft.inOrder_draftVersion hcheck number now)
    (fun _ _ _ _ hbecomes hv => hbecomes.inOrder hv) src requests who id

/-- **What is stored is in order.**  After every run of a session, each rule in the map of a catalog
has a version, and each of its versions has the id of the rule, which is a stable id; a name that
shows something; a definition that is neither `null` nor empty; cases with names; and a time at
which it was put in force if and only if it is in force. -/
theorem inOrder_of_run (src : Sources) (requests : List (ι × Request)) (who : ι) :
    ∀ entry ∈ ((run src requests empty).2.catalogs who).rules.entries,
      entry.2 ≠ [] ∧ ∀ v ∈ entry.2, v.InOrder entry.1 := by
  rintro ⟨id, versions⟩ hentry
  have hget : ((run src requests empty).2.catalogs who).rules.get? id = some versions :=
    KeyMap.mem_entries_iff.mp hentry
  have hfilled : ((run src requests empty).2.catalogs who).rules.get? id ≠ some [] :=
    (counts_run src who id requests empty (Tally.counts_empty id)).filled
  have hhistory : ((run src requests empty).2.catalogs who).history id = versions := by
    rw [Catalog.history, hget, Option.getD_some]
  refine ⟨?_, fun v hv => ?_⟩
  · rintro rfl
    exact hfilled hget
  · exact inOrder_of_mem_history src requests who id v (hhistory ▸ hv)

/-- A rule whose second version takes the place of the first and gets a case, after a draft without
a definition and a replacement without cases were turned down. -/
theorem inOrder_of_run_turnedDown :
    let draft : RuleDraft := ⟨"fee", "Fee", none, .bool true, KeyMap.empty, none, []⟩
    let src : Sources := ⟨fun n => ⟨n, 0⟩, fun n => toString n⟩
    let requests : List (Unit × Request) := [((), .create draft),
      ((), .createUnvalidated { draft with definition := .null }), ((), .publish "fee" 1 none),
      ((), .create draft), ((), .publish "fee" 2 none), ((), .replaceCases "fee" 2 []),
      ((), .replaceCases "fee" 2 [⟨"always", .emptyObject, .bool true, none⟩])]
    ∃ v w, ((run src requests empty).2.catalogs ()).rules.entries = [("fee", [v, w])] ∧
      v.InOrder "fee" ∧ w.InOrder "fee" ∧ v.publishedAt = none ∧ w.publishedAt = some ⟨3, 0⟩ ∧
      w.regressionCases.length = 1 := by
  intro draft src requests
  have hshape : ((run src requests empty).2.catalogs ()).rules.entries.map (fun entry =>
      (entry.1, entry.2.map fun v => (v.publishedAt, v.regressionCases.length))) =
        [("fee", [(none, 0), (some ⟨3, 0⟩, 1)])] := by
    decide +kernel
  obtain ⟨⟨id, versions⟩, hentries, hentry⟩ := List.map_eq_singleton_iff.mp hshape
  obtain ⟨rfl, hversions⟩ := Prod.mk.inj hentry
  obtain ⟨v, rest, rfl, hv, hrest⟩ := List.map_eq_cons_iff.mp hversions
  obtain ⟨w, rfl, hw⟩ := List.map_eq_singleton_iff.mp hrest
  obtain ⟨hpublished, -⟩ := Prod.mk.inj hv
  obtain ⟨hpublished', hcases⟩ := Prod.mk.inj hw
  obtain ⟨-, hall⟩ := inOrder_of_run src requests () ("fee", [v, w])
    (hentries ▸ List.mem_singleton_self _)
  exact ⟨v, w, hentries, hall v List.mem_cons_self,
    hall w (List.mem_cons_of_mem v (List.mem_singleton_self w)), hpublished, hpublished', hcases⟩

end Session

end DecisionRules
