import DecisionRules.Catalog.Basic

/-!
# Proofs/Catalog/Change — what the operations make of a version list

Every operation on a catalog works on the version list of one rule and leaves the lists of all other
rules alone.  An append adds one version at the end; a change takes the list apart at the version
asked for, and puts it together again around the version it became (`Catalog.change_eq_ok`).
-/

namespace DecisionRules

namespace Catalog

/-- The version list of a rule, empty for a rule that is not there. -/
def history (c : Catalog) (id : String) : List RuleVersion := (c.rules.get? id).getD []

/-! ## Putting a version list in place -/

/-- The catalog with another version list for a rule. -/
def withHistory (c : Catalog) (id : String) (versions : List RuleVersion) : Catalog :=
  ⟨c.rules.insert id versions⟩

/-- **A version list put in place is the one of its rule**, and the others stay. -/
theorem get?_withHistory (c : Catalog) (id : String) (versions : List RuleVersion)
    (other : String) : (c.withHistory id versions).rules.get? other =
      if other = id then some versions else c.rules.get? other :=
  KeyMap.get?_insert c.rules id versions other

@[simp] theorem history_withHistory_self (c : Catalog) (id : String)
    (versions : List RuleVersion) : (c.withHistory id versions).history id = versions := by
  rw [history, get?_withHistory, if_pos rfl, Option.getD_some]

theorem versions_withHistory (c : Catalog) (id : String) (versions : List RuleVersion) :
    (c.withHistory id versions).versions id = .ok versions := by
  rw [Catalog.versions, get?_withHistory, if_pos rfl]

theorem versions_withHistory_of_ne {id other : String} (h : other ≠ id) (c : Catalog)
    (versions : List RuleVersion) :
    (c.withHistory id versions).versions other = c.versions other := by
  rw [Catalog.versions, get?_withHistory, if_neg h, Catalog.versions]

theorem withHistory_withHistory (c : Catalog) (id : String) (earlier versions : List RuleVersion) :
    (c.withHistory id earlier).withHistory id versions = c.withHistory id versions := by
  rw [withHistory, withHistory, withHistory, KeyMap.insert_insert]

/-! ## Appending -/

theorem append_eq (c : Catalog) (d : RuleDraft) (now : Timestamp) :
    c.append d now =
      (draftVersion d (nextNumber (c.history d.stableId)) now,
        c.withHistory d.stableId
          (c.history d.stableId ++ [draftVersion d (nextNumber (c.history d.stableId)) now])) := rfl

/-! ## Changing one version -/

/-- **A change takes a version list apart at the first version with the number**, and nowhere
else. -/
theorem changeFirst_eq_some {number : Nat} {f : RuleVersion → RuleVersion} {changed : RuleVersion} :
    ∀ {versions versions' : List RuleVersion},
      changeFirst number f versions = some (changed, versions') →
        ∃ front v back, versions = front ++ v :: back ∧ (∀ u ∈ front, u.version ≠ number) ∧
          v.version = number ∧ changed = f v ∧ versions' = front ++ f v :: back
  | [], _, h => by cases h
  | v :: rest, versions', h => by
    rw [changeFirst] at h
    by_cases hv : v.version = number
    · rw [if_pos hv] at h
      obtain ⟨rfl, rfl⟩ := Prod.mk.inj (Option.some.inj h)
      exact ⟨[], v, rest, rfl, fun _ hu => absurd hu List.not_mem_nil, hv, rfl, rfl⟩
    · rw [if_neg hv] at h
      obtain ⟨⟨_, rest'⟩, hrest, heq⟩ := Option.map_eq_some_iff.mp h
      obtain ⟨rfl, rfl⟩ := Prod.mk.inj heq
      obtain ⟨front, w, back, rfl, hfront, hw, rfl, rfl⟩ := changeFirst_eq_some hrest
      refine ⟨v :: front, w, back, rfl, fun u hu => ?_, hw, rfl, rfl⟩
      rcases List.mem_cons.mp hu with rfl | hu
      · exact hv
      · exact hfront u hu

/-- **What a change does that succeeds**: the rule is there, its version list prepared for the
change has a version with the number, and that version alone becomes another. -/
theorem change_eq_ok {c c' : Catalog} {id : String} {number : Nat}
    {before f : RuleVersion → RuleVersion} {changed : RuleVersion}
    (h : c.change id number before f = .ok (changed, c')) :
    c.rules.get? id = some (c.history id) ∧
      ∃ front v back, (c.history id).map before = front ++ v :: back ∧
        (∀ u ∈ front, u.version ≠ number) ∧ v.version = number ∧ changed = f v ∧
        c' = c.withHistory id (front ++ f v :: back) := by
  rw [change, versions] at h
  rcases hget : c.rules.get? id with _ | vs
  · rw [hget] at h
    cases h
  rw [hget] at h
  dsimp only [bind, Except.bind] at h
  have hhistory : c.history id = vs := by rw [history, hget, Option.getD_some]
  rw [hhistory]
  refine ⟨rfl, ?_⟩
  rcases hchange : changeFirst number f (vs.map before) with _ | ⟨changed', versions'⟩
  · rw [hchange] at h
    cases h
  rw [hchange] at h
  obtain ⟨rfl, rfl⟩ := Prod.mk.inj (Except.ok.inj h)
  obtain ⟨front, v, back, hsplit, hfront, hv, rfl, rfl⟩ := changeFirst_eq_some hchange
  exact ⟨front, v, back, hsplit, hfront, hv, rfl, rfl⟩

/-- Taking a version out of force touches its status and the time it was put in force, and nothing
else. -/
theorem demote_eq_with (v : RuleVersion) : ∃ status publishedAt,
    demote v = { v with status := status, publishedAt := publishedAt } := by
  rw [demote]
  split
  · exact ⟨.draft, none, rfl⟩
  · exact ⟨v.status, v.publishedAt, rfl⟩

/-- **What the preparation and the change leave alone** stays as it is, version by version. -/
theorem map_of_change {β : Type} {g : RuleVersion → β} {before : RuleVersion → RuleVersion}
    {versions front back : List RuleVersion} {v v' : RuleVersion}
    (hbefore : ∀ u, g (before u) = g u) (hsplit : versions.map before = front ++ v :: back)
    (hv : g v' = g v) : (front ++ v' :: back).map g = versions.map g := by
  have hmap : (versions.map before).map g = versions.map g := by
    rw [List.map_map]
    exact List.map_congr_left fun u _ => hbefore u
  rw [← hmap, hsplit, List.map_append, List.map_append, List.map_cons, List.map_cons, hv]

/-! ## Reading -/

/-- A rule has versions or is not there, as long as no version list in the map is empty. -/
theorem versions_eq {c : Catalog} {id : String} (h : c.rules.get? id ≠ some []) :
    c.versions id =
      if c.history id = [] then .error (.ruleNotFound id) else .ok (c.history id) := by
  rw [versions, history]
  rcases hget : c.rules.get? id with _ | vs
  · rw [Option.getD_none, if_pos rfl]
  · rw [Option.getD_some, if_neg fun hvs : vs = [] => h (hvs ▸ hget)]

/-- Asking for the versions of a rule gives its version list. -/
theorem history_of_versions (c : Catalog) (id : String) :
    (c.versions id).toOption.getD [] = c.history id := by
  rw [versions, history]
  rcases c.rules.get? id with _ | vs
  · rfl
  · rfl

theorem history_eq_of_versions {c : Catalog} {id : String} {versions : List RuleVersion}
    (h : c.versions id = .ok versions) : c.history id = versions := by
  rw [← history_of_versions, h]
  rfl

theorem select_mem {versions : List RuleVersion} {version : Option Nat} {preferLatest : Bool}
    {found : RuleVersion} (h : select versions version preferLatest = some found) :
    found ∈ versions := by
  rcases version with _ | number
  · rcases preferLatest with _ | _
    · rcases Option.or_eq_some_iff.mp h with hpublished | ⟨-, hlast⟩
      · exact List.mem_of_find?_eq_some hpublished
      · exact List.mem_of_getLast? hlast
    · exact List.mem_of_getLast? h
  · exact List.mem_of_find?_eq_some h

/-- **A lookup selects from the version list of the rule.** -/
theorem get_eq {c : Catalog} {id : String} (h : c.rules.get? id ≠ some []) (version : Option Nat)
    (preferLatest : Bool) :
    c.get id version preferLatest =
      if c.history id = [] then .error (.ruleNotFound id)
      else match select (c.history id) version preferLatest with
        | some found => .ok found
        | none =>
          match version with
          | some number => .error (.versionNotFound id number)
          | none => .error (.ruleNotFound id) := by
  unfold Catalog.get
  rw [versions_eq h]
  by_cases hnil : c.history id = []
  · rw [if_pos hnil, if_pos hnil]
    rfl
  · rw [if_neg hnil, if_neg hnil]
    rfl

/-- What a lookup finds is one of the versions of the rule. -/
theorem mem_history_of_get {c : Catalog} {id : String} (h : c.rules.get? id ≠ some [])
    {version : Option Nat} {preferLatest : Bool} {v : RuleVersion}
    (hget : c.get id version preferLatest = .ok v) : v ∈ c.history id := by
  rw [get_eq h] at hget
  split at hget
  · cases hget
  · rcases hselect : select (c.history id) version preferLatest with _ | found
    · rw [hselect] at hget
      rcases version with _ | number <;> cases hget
    · rw [hselect] at hget
      obtain rfl := Except.ok.inj hget
      exact select_mem hselect

end Catalog

end DecisionRules
