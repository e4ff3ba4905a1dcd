import DecisionRules.Proofs.Catalog.Change
import DecisionRules.Proofs.Engine.Step

/-!
# Proofs/Catalog/Tally — a catalog reads like two counts

Which versions a rule has, which of them is in force, and which one a lookup finds, all follow from
two numbers: how many versions were created since the catalog was last cleared, and which version
was last put in force.  A `Tally` keeps the two along what was asked and answered; `Tally.Counts`
says that a catalog agrees with it, and survives every request (`Tally.Counts.after`).

Counts and version numbers are naturals.  They grow by one with a request at most, so where they are
kept in a word nothing overflows as long as there are fewer requests than the word has values
(`Session.version_le_of_run`).
-/

namespace DecisionRules

/-- Which version of which rule this is. -/
def RuleVersion.key (v : RuleVersion) : String × Nat := (v.stableId, v.version)

/-- The numbers of the versions in force. -/
def publishedNumbers (versions : List RuleVersion) : List Nat :=
  (versions.filter RuleVersion.isPublished).map RuleVersion.version

theorem publishedNumbers_append (front back : List RuleVersion) :
    publishedNumbers (front ++ back) = publishedNumbers front ++ publishedNumbers back := by
  rw [publishedNumbers, List.filter_append, List.map_append, publishedNumbers, publishedNumbers]

theorem publishedNumbers_cons (v : RuleVersion) (rest : List RuleVersion) :
    publishedNumbers (v :: rest) =
      if v.isPublished then v.version :: publishedNumbers rest else publishedNumbers rest := by
  rw [publishedNumbers, List.filter_cons]
  split <;> rfl

theorem publishedNumbers_eq_nil {versions : List RuleVersion}
    (h : ∀ v ∈ versions, v.isPublished = false) : publishedNumbers versions = [] := by
  rw [publishedNumbers, List.filter_eq_nil_iff.mpr fun v hv => Bool.eq_false_iff.mp (h v hv)]
  rfl

/-- What is kept count of for one rule. -/
structure Tally where
  /-- How many versions were created. -/
  made : Nat
  /-- Which version was put in force last. -/
  inForce : Option Nat

namespace Tally

/-! ## Keeping count -/

/-- The tally before anything happened. -/
def zero : Tally := ⟨0, none⟩

/-- The tally of a rule after a request and its answer; what fails does not count. -/
def after (id : String) (t : Tally) : Request → Except EngineError Answer → Tally
  | .create d, .ok _ | .createUnvalidated d, .ok _ =>
    if d.stableId = id then { t with made := t.made + 1 } else t
  | .publish rule number _, .ok _ => if rule = id then { t with inForce := some number } else t
  | .clearCatalog, .ok _ => zero
  | _, _ => t

@[simp] theorem after_error (id : String) (t : Tally) (r : Request) (err : EngineError) :
    t.after id r (.error err) = t := by
  rcases r <;> rfl

/-- What is not meant to change the catalog does not count. -/
theorem after_of_changesCatalog {r : Request} (h : r.changesCatalog = false) (id : String)
    (t : Tally) (answer : Except EngineError Answer) : t.after id r answer = t := by
  rcases r <;> first | rfl | cases h

/-- The tally of a rule of one engine after what a session was asked and answered. -/
def along {ι : Type} [DecidableEq ι] (who : ι) (id : String) :
    List ((ι × Request) × Except EngineError Answer) → Tally → Tally
  | [], t => t
  | ((i, r), answer) :: rest, t => along who id rest (if i = who then t.after id r answer else t)

theorem made_after_le (id : String) (t : Tally) (r : Request)
    (answer : Except EngineError Answer) : (t.after id r answer).made ≤ t.made + 1 := by
  unfold after
  split
  case h_1 | h_2 | h_3 => split <;> simp
  case h_4 => exact Nat.zero_le _
  case h_5 => exact Nat.le_succ _

/-- **Every request makes one version at most.** -/
theorem made_along_le {ι : Type} [DecidableEq ι] (who : ι) (id : String) :
    ∀ (log : List ((ι × Request) × Except EngineError Answer)) (t : Tally),
      (along who id log t).made ≤ t.made + log.length
  | [], _ => Nat.le_refl _
  | ((i, r), answer) :: rest, t => by
    have hstep : (if i = who then t.after id r answer else t).made ≤ t.made + 1 := by
      split
      · exact made_after_le id t r answer
      · exact Nat.le_succ _
    calc (along who id (((i, r), answer) :: rest) t).made
        ≤ (if i = who then t.after id r answer else t).made + rest.length :=
          made_along_le who id rest _
      _ ≤ t.made + (((i, r), answer) :: rest).length := by
          rw [List.length_cons]
          omega

/-! ## Reading the counts -/

/-- The versions of a rule: numbered from 1, in order. -/
def keys (t : Tally) (id : String) : List (String × Nat) :=
  (List.range' 1 t.made).map (Prod.mk id)

/-- What asking for all versions of a rule gives. -/
def versions (t : Tally) (id : String) : Except CatalogError (List (String × Nat)) :=
  if t.made = 0 then .error (.ruleNotFound id) else .ok (t.keys id)

/-- What asking for one version of a rule gives. -/
def get (t : Tally) (id : String) (version : Option Nat) (preferLatest : Bool) :
    Except CatalogError (String × Nat) :=
  if t.made = 0 then .error (.ruleNotFound id)
  else match version with
    | some number =>
      if 1 ≤ number ∧ number ≤ t.made then .ok (id, number)
      else .error (.versionNotFound id number)
    | none => .ok (id, if preferLatest then t.made else t.inForce.getD t.made)

/-! ## A catalog that agrees -/

/-- **A catalog agrees with a tally** about one rule. -/
structure Counts (t : Tally) (c : Catalog) (id : String) : Prop where
  /-- A rule that is there has a version. -/
  filled : c.rules.get? id ≠ some []
  keys_eq : (c.history id).map RuleVersion.key = t.keys id
  published_eq : publishedNumbers (c.history id) = t.inForce.toList

variable {t : Tally} {c c' : Catalog} {id : String}

theorem counts_empty (id : String) : zero.Counts Catalog.empty id :=
  ⟨nofun, rfl, rfl⟩

/-- Only the version list of the rule matters. -/
theorem Counts.congr (h : t.Counts c id) (hget : c'.rules.get? id = c.rules.get? id) :
    t.Counts c' id := by
  have hhistory : c'.history id = c.history id := by rw [Catalog.history, hget, Catalog.history]
  refine ⟨?_, ?_, ?_⟩
  · rw [hget]
    exact h.filled
  · rw [hhistory]
    exact h.keys_eq
  · rw [hhistory]
    exact h.published_eq

/-- What is done to another rule does not matter. -/
theorem Counts.of_ne {other : String} (h : t.Counts c id) (hne : id ≠ other)
    (versions : List RuleVersion) : t.Counts (c.withHistory other versions) id :=
  h.congr (by rw [Catalog.get?_withHistory, if_neg hne])

theorem Counts.of_change_ne {other : String} {number : Nat} {before f : RuleVersion → RuleVersion}
    {v : RuleVersion} (h : t.Counts c id) (hne : id ≠ other)
    (hchange : c.change other number before f = .ok (v, c')) : t.Counts c' id := by
  obtain ⟨-, front, w, back, -, -, -, -, rfl⟩ := Catalog.change_eq_ok hchange
  exact h.of_ne hne _

theorem counts_withHistory {versions : List RuleVersion} (hne : versions ≠ [])
    (hkeys : versions.map RuleVersion.key = t.keys id)
    (hpublished : publishedNumbers versions = t.inForce.toList) :
    t.Counts (c.withHistory id versions) id := by
  refine ⟨?_, ?_, ?_⟩
  · rw [Catalog.get?_withHistory, if_pos rfl]
    exact fun h => hne (Option.some.inj h)
  · rw [Catalog.history_withHistory_self]
    exact hkeys
  · rw [Catalog.history_withHistory_self]
    exact hpublished

/-! ## What an operation does to the counts

Creating counts up and leaves the version in force alone.  Putting a version in force first takes
every other one out, so one is in force whatever was before.  Other changes keep both. -/

/-- The next number is one more than there are versions. -/
theorem nextNumber_eq {versions : List RuleVersion}
    (h : versions.map RuleVersion.key = t.keys id) : Catalog.nextNumber versions = t.made + 1 := by
  have hlast : versions.getLast?.map RuleVersion.key =
      (List.range' 1 t.made).getLast?.map (Prod.mk id) := by
    rw [← List.getLast?_map, h, keys, List.getLast?_map]
  rw [List.getLast?_range'] at hlast
  rw [Catalog.nextNumber]
  by_cases hmade : t.made = 0
  · rw [if_pos hmade] at hlast
    rw [Option.map_eq_none_iff.mp hlast, hmade]
  · rw [if_neg hmade] at hlast
    obtain ⟨latest, hlatest, hkey⟩ := Option.map_eq_some_iff.mp hlast
    have hversion : latest.version = 1 + t.made - 1 := congrArg Prod.snd hkey
    rw [hlatest]
    change latest.version + 1 = t.made + 1
    omega

/-- **An appended version is the next one, and not in force.** -/
theorem Counts.append {d : RuleDraft} (h : t.Counts c d.stableId) (now : Timestamp) :
    Counts { t with made := t.made + 1 } (c.append d now).2 d.stableId := by
  rw [Catalog.append_eq, nextNumber_eq h.keys_eq]
  refine counts_withHistory (List.concat_ne_nil _ _) ?_ ?_
  · rw [List.map_append, h.keys_eq, keys, keys, List.range'_1_concat, List.map_append,
      Nat.add_comm 1]
    rfl
  · rw [publishedNumbers_append, h.published_eq]
    exact List.append_nil _

@[simp] theorem key_demote (v : RuleVersion) : (Catalog.demote v).key = v.key := by
  obtain ⟨_, _, h⟩ := Catalog.demote_eq_with v
  rw [h]
  rfl

@[simp] theorem isPublished_demote (v : RuleVersion) : (Catalog.demote v).isPublished = false := by
  rw [Catalog.demote]
  by_cases h : v.isPublished = true
  · rw [if_pos h]
    rfl
  · rw [if_neg h]
    exact Bool.eq_false_iff.mpr h

/-- **The version put in force is the only one.** -/
theorem Counts.publish {number : Nat} {notes : Option String} {now : Timestamp} {v : RuleVersion}
    (h : t.Counts c id) (hpublish : c.publish id number notes now = .ok (v, c')) :
    Counts { t with inForce := some number } c' id := by
  obtain ⟨-, front, w, back, hsplit, -, hw, -, rfl⟩ := Catalog.change_eq_ok hpublish
  -- Nothing is in force at the moment of the change, so only the changed version counts.
  have hdemoted : ∀ u ∈ front ++ w :: back, u.isPublished = false := by
    intro u hu
    rw [← hsplit] at hu
    obtain ⟨_, -, rfl⟩ := List.mem_map.mp hu
    exact isPublished_demote _
  refine counts_withHistory (List.append_ne_nil_of_right_ne_nil _ (List.cons_ne_nil _ _)) ?_ ?_
  · refine (Catalog.map_of_change key_demote hsplit ?_).trans h.keys_eq
    rfl
  · have hfront : publishedNumbers front = [] :=
      publishedNumbers_eq_nil fun u hu => hdemoted u (List.mem_append_left _ hu)
    have hback : publishedNumbers back = [] :=
      publishedNumbers_eq_nil fun u hu =>
        hdemoted u (List.mem_append_right _ (List.mem_cons_of_mem _ hu))
    rw [publishedNumbers_append, publishedNumbers_cons, hfront, hback]
    exact congrArg List.singleton hw

/-- **Other regression cases leave the versions and the one in force as they are.** -/
theorem Counts.replaceCases {number : Nat} {cases : List RegressionCase} {now : Timestamp}
    {v : RuleVersion} (h : t.Counts c id)
    (hreplace : c.replaceCases id number cases now = .ok (v, c')) : t.Counts c' id := by
  obtain ⟨-, front, w, back, hsplit, -, -, -, rfl⟩ := Catalog.change_eq_ok hreplace
  refine counts_withHistory (List.append_ne_nil_of_right_ne_nil _ (List.cons_ne_nil _ _)) ?_ ?_
  · refine (Catalog.map_of_change (fun _ => rfl) hsplit ?_).trans h.keys_eq
    rfl
  · rw [List.map_id'] at hsplit
    rw [← h.published_eq, hsplit, publishedNumbers_append, publishedNumbers_append,
      publishedNumbers_cons, publishedNumbers_cons]
    rfl

/-- **A catalog goes on agreeing with the tally**, whatever it is asked, and whether or not it does
what it is asked. -/
theorem Counts.after {now : Timestamp} {r : Request} {answer : Except EngineError Answer}
    (h : t.Counts c id) (heffect : Catalog.Effect now r answer c c') :
    (t.after id r answer).Counts c' id := by
  have created {d : RuleDraft} :
      Counts (if d.stableId = id then { t with made := t.made + 1 } else t) (c.append d now).2
        id := by
    by_cases hid : d.stableId = id
    · subst hid
      rw [if_pos rfl]
      exact h.append now
    · rw [if_neg hid, Catalog.append_eq]
      exact h.of_ne (Ne.symm hid) _
  rcases heffect with ⟨⟨rfl, -⟩ | rfl, -⟩ | hpublish | ⟨-, hreplace⟩ | _ | _ | hkept
  case appended.inl => exact created
  case appended.inr => exact created
  case published rule number notes v =>
    rw [Tally.after]
    by_cases hid : rule = id
    · subst hid
      rw [if_pos rfl]
      exact h.publish hpublish
    · rw [if_neg hid]
      exact h.of_change_ne (Ne.symm hid) hpublish
  case replaced rule number cases v =>
    change t.Counts c' id
    by_cases hid : rule = id
    · subst hid
      exact h.replaceCases hreplace
    · exact h.of_change_ne (Ne.symm hid) hreplace
  case cleared => exact counts_empty id
  case failed err =>
    rw [after_error]
    exact h
  case kept =>
    rw [after_of_changesCatalog hkept]
    exact h

/-! ## What a catalog that agrees is read as -/

theorem Counts.history_eq_nil (h : t.Counts c id) : c.history id = [] ↔ t.made = 0 := by
  have hlength : (c.history id).length = t.made := by
    rw [← List.length_map RuleVersion.key, h.keys_eq, keys, List.length_map, List.length_range']
  rw [← hlength, List.length_eq_zero_iff]

theorem Counts.versions (h : t.Counts c id) :
    (c.versions id).map (List.map RuleVersion.key) = t.versions id := by
  rw [Catalog.versions_eq h.filled, Tally.versions]
  by_cases hmade : t.made = 0
  · rw [if_pos (h.history_eq_nil.mpr hmade), if_pos hmade]
    rfl
  · rw [if_neg fun hnil => hmade (h.history_eq_nil.mp hnil), if_neg hmade, ← h.keys_eq]
    rfl

/-- **The version with a number is there up to the count.** -/
theorem Counts.find? (h : t.Counts c id) (number : Nat) :
    ((c.history id).find? (·.version == number)).map RuleVersion.key =
      if 1 ≤ number ∧ number ≤ t.made then some (id, number) else none := by
  have hkeys : ((c.history id).find? (·.version == number)).map RuleVersion.key =
      ((List.range' 1 t.made).find? (· == number)).map (Prod.mk id) := by
    have hfind := congrArg (List.find? fun key => key.2 == number) h.keys_eq
    rw [keys, List.find?_map, List.find?_map] at hfind
    exact hfind
  rw [hkeys]
  by_cases hnumber : 1 ≤ number ∧ number ≤ t.made
  · have hfound : (List.range' 1 t.made).find? (· == number) = some number := by
      refine List.find?_range'_eq_some.mpr ⟨beq_self_eq_true number, ?_, fun j _ hj => ?_⟩
      · exact List.mem_range'_1.mpr (by omega)
      · rw [beq_false_of_ne (Nat.ne_of_lt hj)]
        rfl
    rw [hfound, if_pos hnumber]
    rfl
  · have hnone : (List.range' 1 t.made).find? (· == number) = none := by
      refine List.find?_range'_eq_none.mpr fun j hj hj' => ?_
      rw [beq_false_of_ne (by omega)]
      rfl
    rw [hnone, if_neg hnumber]
    rfl

theorem Counts.getLast? (h : t.Counts c id) (hmade : t.made ≠ 0) :
    (c.history id).getLast?.map RuleVersion.key = some (id, t.made) := by
  rw [← List.getLast?_map, h.keys_eq, keys, List.getLast?_map, List.getLast?_range', if_neg hmade,
    Nat.add_sub_cancel_left]
  rfl

/-- The version in force is the one that the tally has in force. -/
theorem Counts.publishedOf (h : t.Counts c id) :
    (Catalog.publishedOf (c.history id)).map RuleVersion.version = t.inForce := by
  rw [Catalog.publishedOf, ← List.head?_filter, ← List.head?_map]
  change (publishedNumbers (c.history id)).head? = t.inForce
  rw [h.published_eq, Option.head?_toList]

theorem Counts.stableId_eq (h : t.Counts c id) {v : RuleVersion} (hv : v ∈ c.history id) :
    v.stableId = id := by
  have hkey : v.key ∈ t.keys id := h.keys_eq ▸ List.mem_map_of_mem hv
  obtain ⟨number, -, heq⟩ := List.mem_map.mp hkey
  exact (congrArg Prod.fst heq).symm

theorem Counts.version_le (h : t.Counts c id) {v : RuleVersion} (hv : v ∈ c.history id) :
    v.version ≤ t.made := by
  have hkey : v.key ∈ t.keys id := h.keys_eq ▸ List.mem_map_of_mem hv
  obtain ⟨number, hnumber, heq⟩ := List.mem_map.mp hkey
  obtain rfl : number = v.version := congrArg Prod.snd heq
  obtain ⟨-, hlast⟩ := List.mem_range'_1.mp hnumber
  omega

/-- **Without a number, the version in force is found**, or the latest. -/
theorem Counts.select_none (h : t.Counts c id) (hmade : t.made ≠ 0) (preferLatest : Bool) :
    (Catalog.select (c.history id) none preferLatest).map RuleVersion.key =
      some (id, if preferLatest then t.made else t.inForce.getD t.made) := by
  have hlast := h.getLast? hmade
  rw [Catalog.select]
  rcases preferLatest with _ | _
  · have hpublished := h.publishedOf
    rcases hfound : Catalog.publishedOf (c.history id) with _ | v
    · rw [hfound] at hpublished
      rw [← hpublished]
      exact hlast
    · rw [hfound] at hpublished
      rw [← hpublished]
      have hv : v ∈ c.history id := List.mem_of_find?_eq_some hfound
      exact congrArg (fun rule => some (rule, v.version)) (h.stableId_eq hv)
  · exact hlast

theorem Counts.get (h : t.Counts c id) (version : Option Nat) (preferLatest : Bool) :
    (c.get id version preferLatest).map RuleVersion.key = t.get id version preferLatest := by
  rw [Catalog.get_eq h.filled]
  unfold Tally.get
  by_cases hmade : t.made = 0
  · rw [if_pos (h.history_eq_nil.mpr hmade), if_pos hmade]
    rfl
  rw [if_neg fun hnil => hmade (h.history_eq_nil.mp hnil), if_neg hmade]
  rcases version with _ | number
  · obtain ⟨v, hv, hkey⟩ := Option.map_eq_some_iff.mp (h.select_none hmade preferLatest)
    rw [hv]
    exact congrArg Except.ok hkey
  · have hfind := h.find? number
    rw [Catalog.select]
    by_cases hnumber : 1 ≤ number ∧ number ≤ t.made
    · rw [if_pos hnumber] at hfind
      obtain ⟨v, hv, hkey⟩ := Option.map_eq_some_iff.mp hfind
      rw [hv]
      change Except.ok v.key = ite _ _ _
      rw [if_pos hnumber, hkey]
    · rw [if_neg hnumber] at hfind
      rw [Option.map_eq_none_iff.mp hfind]
      change _ = ite _ _ _
      rw [if_neg hnumber]
      rfl

end Tally

namespace Session

variable {ι : Type} [DecidableEq ι]

/-! ## Whole runs -/

/-- **A run keeps every catalog in agreement with the tally** of what was asked and answered. -/
theorem counts_run (src : Sources) (who : ι) (id : String) :
    ∀ (requests : List (ι × Request)) (s : Session ι) {t : Tally},
      t.Counts (s.catalogs who) id →
        (Tally.along who id (requests.zip (s.run src requests).1) t).Counts
          ((s.run src requests).2.catalogs who) id
  | [], _, _, h => h
  | (i, r) :: rest, s, t, h => by
    -- Only a request to this engine counts, and only that one changes its catalog.
    have hnext : (if i = who then t.after id r (s.perform src i r).1 else t).Counts
        ((s.perform src i r).2.catalogs who) id := by
      by_cases hi : i = who
      · subst hi
        rw [if_pos rfl]
        exact h.after (s.effect_perform src i r)
      · rw [if_neg hi, catalogs_perform_of_ne (Ne.symm hi)]
        exact h
    exact counts_run src who id rest (s.perform src i r).2 hnext

/-- **What can be asked of a catalog follows from two counts.**  After any run of a session, let
`made` count the versions of a rule created in an engine since its catalog was last cleared, and let
`inForce` be the one put in force last since then.  The rule has the versions from 1 to `made`, in
order, and is not found if there are none; `inForce` is in force and no other version is; a lookup
finds the version with a number if there is one, and without a number the latest, unless one is in
force and the latest is not preferred.  What a lookup finds is one of the versions listed. -/
theorem catalog_eq_tally_of_run (src : Sources) (requests : List (ι × Request)) (who : ι)
    (id : String) :
    let outcome := run src requests empty
    let c := outcome.2.catalogs who
    let t := Tally.along who id (requests.zip outcome.1) Tally.zero
    (c.versions id).map (List.map RuleVersion.key) = t.versions id ∧
      publishedNumbers ((c.versions id).toOption.getD []) = t.inForce.toList ∧
      (∀ version preferLatest,
        (c.get id version preferLatest).map RuleVersion.key = t.get id version preferLatest) ∧
      ∀ version preferLatest v, c.get id version preferLatest = .ok v →
        v ∈ (c.versions id).toOption.getD [] := by
  intro outcome c t
  have hcounts : t.Counts c id := counts_run src who id requests empty (Tally.counts_empty id)
  rw [Catalog.history_of_versions]
  exact ⟨hcounts.versions, hcounts.published_eq, hcounts.get,
    fun _ _ _ hget => Catalog.mem_history_of_get hcounts.filled hget⟩

/-- **No number is beyond the length of the run**: after a run of a session, the versions of a rule
are numbered up to the number of requests at most. -/
theorem version_le_of_run (src : Sources) (requests : List (ι × Request)) (who : ι) (id : String)
    {v : RuleVersion} (hv : v ∈ ((run src requests empty).2.catalogs who).history id) :
    v.version ≤ requests.length := by
  have hcounts := counts_run src who id requests empty (Tally.counts_empty id)
  let log := requests.zip (run src requests empty).1
  calc v.version
      ≤ (Tally.along who id log Tally.zero).made := hcounts.version_le hv
    _ ≤ Tally.zero.made + log.length := Tally.made_along_le who id log Tally.zero
    _ = log.length := Nat.zero_add _
    _ ≤ requests.length := by
        rw [List.length_zip]
        exact Nat.min_le_left _ _

end Session

/-- The second of three versions is in force, and the third is the latest. -/
example : (⟨3, some 2⟩ : Tally).get "fee" none false = .ok ("fee", 2) ∧
    (⟨3, some 2⟩ : Tally).get "fee" none true = .ok ("fee", 3) := ⟨rfl, rfl⟩

end DecisionRules
