import DecisionRules.Proofs.Audit.Coherence
import DecisionRules.Proofs.Catalog.Lifecycle
import DecisionRules.Proofs.Engine.Provenance
import Mathlib.Order.Basic

/-!
# Proofs/Engine/Chronology — the times tell the order of what happened

Engines that share a clock read it one after the other.  If it never goes back, the times they write
are in order: those of a version among themselves, those of versions that follow one another, those
of artifacts, and that of an artifact after that of the version it was made of
(`Session.chronological_of_run`).

Times are written at different places, but all of them are readings, and none is later than what the
clock shows next.  This bound is what carries the proof: everything in a session keeps to it
(`Session.Timely`), so whatever is written next is in order with what is there.
-/

namespace DecisionRules

/-- Timestamps are ordered by the moment; the offset in which it is shown does not count. -/
instance : Preorder Timestamp where
  le a b := a.instant ≤ b.instant
  le_refl a := Int.le_refl a.instant
  le_trans _ _ _ := Int.le_trans

/-- **The clock never goes back**: no reading is before an earlier one. -/
def Sources.Steady (src : Sources) : Prop := ∀ m n, m ≤ n → src.time m ≤ src.time n

/-! ## Versions -/

namespace RuleVersion

variable {now later : Timestamp} {v w : RuleVersion}

/-- **The times of a version are in order**, and not after a given one. -/
structure Timely (now : Timestamp) (v : RuleVersion) : Prop where
  created_le_updated : v.createdAt ≤ v.updatedAt
  /-- A version in force was put in force between the two. -/
  published_between : v.status = .published →
    ∃ t, v.publishedAt = some t ∧ v.createdAt ≤ t ∧ t ≤ v.updatedAt
  updated_le : v.updatedAt ≤ now

theorem Timely.created_le (h : v.Timely now) : v.createdAt ≤ now :=
  h.created_le_updated.trans h.updated_le

theorem Timely.mono (h : v.Timely now) (hle : now ≤ later) : v.Timely later :=
  { h with updated_le := h.updated_le.trans hle }

theorem timely_draftVersion (d : RuleDraft) (number : Nat) (now : Timestamp) :
    (Catalog.draftVersion d number now).Timely now :=
  ⟨le_refl now, fun h => absurd h RuleStatus.draft_ne_published, le_refl now⟩

/-- Taking a version out of force leaves its other times alone. -/
theorem Timely.demote (h : v.Timely now) : (Catalog.demote v).Timely now := by
  rw [Catalog.demote]
  split
  · exact ⟨h.created_le_updated, fun hdraft => absurd hdraft RuleStatus.draft_ne_published,
      h.updated_le⟩
  · exact h

/-- **Whatever becomes of a version at a time, its times are in order then.** -/
theorem Becomes.timely (h : Becomes now v w) (hv : v.Timely now) : w.Timely now := by
  cases h with
  | kept => exact hv
  | demoted => exact hv.demote
  | promoted => exact ⟨hv.created_le, fun _ => ⟨now, rfl, hv.created_le, le_refl now⟩, le_refl now⟩
  | recased =>
    refine ⟨hv.created_le, fun hpublished => ?_, le_refl now⟩
    obtain ⟨t, ht, hcreated, hupdated⟩ := hv.published_between hpublished
    exact ⟨t, ht, hcreated, hupdated.trans hv.updated_le⟩

/-- What lasts of a version is not touched. -/
theorem Becomes.lasting_eq (h : Becomes now v w) : w.lasting = v.lasting := by
  cases h with
  | demoted => exact Catalog.lasting_demote v
  | _ => rfl

/-- **A version is never updated earlier than it was.** -/
theorem Becomes.updatedAt_le (h : Becomes now v w) (hv : v.Timely now) :
    v.updatedAt ≤ w.updatedAt := by
  cases h with
  | kept => exact le_refl _
  | demoted =>
    obtain ⟨_, _, hdemote⟩ := Catalog.demote_eq_with v
    rw [hdemote]
  | promoted => exact hv.updated_le
  | recased => exact hv.updated_le

end RuleVersion

/-! ## Catalogs -/

/-- The versions of a rule stand in the order of their numbers. -/
theorem Tally.Counts.pairwise_version {t : Tally} {c : Catalog} {id : String} (h : t.Counts c id) :
    (c.history id).Pairwise fun v w => v.version < w.version := by
  rw [← List.pairwise_map, h.numbers_eq]
  exact List.pairwise_lt_range'

namespace Catalog

variable {now later : Timestamp} {c c' c'' : Catalog} {id : String}

/-- **A catalog is in order of time**: its versions are, and were created in the order in which they
stand. -/
structure Timely (now : Timestamp) (c : Catalog) : Prop where
  versions : ∀ id, ∀ v ∈ c.history id, v.Timely now
  ordered : ∀ id, (c.history id).Pairwise fun v w => v.createdAt ≤ w.createdAt

theorem timely_empty (now : Timestamp) : empty.Timely now :=
  ⟨fun _ _ hv => absurd hv List.not_mem_nil, fun _ => .nil⟩

theorem Timely.mono (h : c.Timely now) (hle : now ≤ later) : c.Timely later :=
  ⟨fun id v hv => (h.versions id v hv).mono hle, h.ordered⟩

/-- Versions that go on as they can are created in the order in which they stand, if the new ones
are created last. -/
theorem GoesOn.ordered {earlier later : List RuleVersion} (h : GoesOn now id earlier later)
    (hordered : earlier.Pairwise fun v w => v.createdAt ≤ w.createdAt)
    (hpast : ∀ v ∈ later, v.createdAt ≤ now) :
    later.Pairwise fun v w => v.createdAt ≤ w.createdAt := by
  obtain ⟨kept, added, rfl, hkept, hadded⟩ := h
  have hnow : ∀ v ∈ added, v.createdAt = now := by
    intro v hv
    obtain ⟨d, number, -, -, rfl⟩ := hadded v hv
    rfl
  have hsame : earlier.map RuleVersion.createdAt = kept.map RuleVersion.createdAt := by
    rw [← List.forall₂_eq_eq_eq, List.forall₂_map_left_iff, List.forall₂_map_right_iff]
    exact hkept.imp fun _ _ hbecomes =>
      (congrArg RuleVersion.Lasting.createdAt hbecomes.lasting_eq).symm
  refine List.pairwise_append.mpr ⟨?_, ?_, fun v hv w hw => ?_⟩
  · rw [← List.pairwise_map, ← hsame, List.pairwise_map]
    exact hordered
  · refine List.pairwise_of_forall_mem_list fun v hv w hw => ?_
    rw [hnow v hv, hnow w hw]
  · rw [hnow w hw]
    exact hpast v (List.mem_append_left _ hv)

/-- **A request keeps a catalog in order of time**, if it comes after all there is. -/
theorem Effect.timely {r : Request} {answer : Except EngineError Answer}
    (h : Effect now r answer c c') (hc : c.Timely now) : c'.Timely now := by
  have hversions : ∀ id, ∀ v ∈ c'.history id, v.Timely now :=
    h.forall_versions (fun d number _ => RuleVersion.timely_draftVersion d number now)
      (fun _ _ _ hbecomes hv => hbecomes.timely hv) hc.versions
  by_cases hclear : r = .clearCatalog
  · subst hclear
    obtain rfl | rfl := h.eq_of_clearCatalog
    · exact timely_empty now
    · exact hc
  · refine ⟨hversions, fun id => ?_⟩
    exact (h.history hclear id).ordered (hc.ordered id) fun v hv => (hversions id v hv).created_le

/-- **The versions of a rule go on in time**: each is still there, and was not updated earlier than
before. -/
def Advances (c c' : Catalog) (id : String) : Prop :=
  ∀ v ∈ c.history id, ∃ w ∈ c'.history id, w.lasting = v.lasting ∧ v.updatedAt ≤ w.updatedAt

/-- So each is found later by its number. -/
theorem Advances.get (h : c.Advances c' id) {t : Tally} (hcounts : t.Counts c' id)
    {v : RuleVersion} (hv : v ∈ c.history id) :
    ∃ w, (∀ latest, c'.get id (some v.version) latest = .ok w) ∧ w.lasting = v.lasting ∧
      v.updatedAt ≤ w.updatedAt := by
  obtain ⟨w, hw, hlasting, hupdated⟩ := h v hv
  have hversion : w.version = v.version := congrArg RuleVersion.Lasting.version hlasting
  refine ⟨w, fun latest => ?_, hlasting, hupdated⟩
  rw [← hversion]
  exact hcounts.get_of_mem hw latest

theorem Advances.refl (c : Catalog) (id : String) : c.Advances c id :=
  fun v hv => ⟨v, hv, rfl, le_refl _⟩

theorem Advances.trans (h : c.Advances c' id) (h' : c'.Advances c'' id) : c.Advances c'' id := by
  intro v hv
  obtain ⟨w, hw, hlasting, hupdated⟩ := h v hv
  obtain ⟨u, hu, hlasting', hupdated'⟩ := h' w hw
  exact ⟨u, hu, hlasting'.trans hlasting, hupdated.trans hupdated'⟩

theorem Effect.advances {r : Request} {answer : Except EngineError Answer}
    (h : Effect now r answer c c') (hclear : r ≠ .clearCatalog) (hc : c.Timely now) (id : String) :
    c.Advances c' id := by
  intro v hv
  obtain ⟨w, hw, hbecomes⟩ := (h.history hclear id).exists_becomes hv
  exact ⟨w, hw, hbecomes.lasting_eq, hbecomes.updatedAt_le (hc.versions id v hv)⟩

end Catalog

/-! ## Journals -/

namespace Journal

variable {src : Sources} {j : Journal}

/-- **A journal is in order of time**: its artifacts are, up to what the clock shows next. -/
structure Timely (src : Sources) (j : Journal) : Prop where
  ordered : j.store.artifacts.Pairwise fun a b => a.createdAt ≤ b.createdAt
  past : ∀ a ∈ j.store.artifacts, a.createdAt ≤ src.time j.readings

theorem readings_le_act (src : Sources) (j : Journal) (a : Act) :
    j.readings ≤ (j.act src a).2.readings := by
  cases a with
  | record => exact Nat.le_succ _
  | clear => exact Nat.le_refl _
  | readClock => exact Nat.le_succ _

theorem readings_le_actAll (src : Sources) (acts : List Act) (j : Journal) :
    j.readings ≤ (actAll src acts j).2.readings := by
  induction acts generalizing j with
  | nil => exact Nat.le_refl _
  | cons a rest ih => exact Nat.le_trans (readings_le_act src j a) (ih _)

theorem Timely.act (hclock : src.Steady) (h : j.Timely src) (a : Act) :
    (j.act src a).2.Timely src := by
  have hnext : src.time j.readings ≤ src.time (j.readings + 1) := hclock _ _ (Nat.le_succ _)
  cases a with
  | record =>
    refine ⟨?_, ?_⟩
    · rw [Journal.act, record_store]
      refine List.pairwise_append.mpr ⟨h.ordered, List.pairwise_singleton _ _, fun a ha b hb => ?_⟩
      obtain rfl := List.mem_singleton.mp hb
      exact h.past a ha
    · rw [Journal.act, record_store]
      intro a ha
      obtain hold | hnew := List.mem_append.mp ha
      · exact (h.past a hold).trans hnext
      · obtain rfl := List.mem_singleton.mp hnew
        exact hnext
  | clear => exact ⟨.nil, fun _ ha => absurd ha List.not_mem_nil⟩
  | readClock => exact ⟨h.ordered, fun a ha => (h.past a ha).trans hnext⟩

theorem Timely.actAll (hclock : src.Steady) (acts : List Act) (h : j.Timely src) :
    (Journal.actAll src acts j).2.Timely src := by
  induction acts generalizing j with
  | nil => exact h
  | cons a rest ih => exact ih (h.act hclock a)

/-- **What acts record is recorded from now on.** -/
theorem since_actAll (hclock : src.Steady) (acts : List Act) (j : Journal)
    (hclear : .clear ∉ acts) : ∃ made,
      (Journal.actAll src acts j).2.store.artifacts = j.store.artifacts ++ made ∧
        ∀ a ∈ made, src.time j.readings ≤ a.createdAt := by
  induction acts generalizing j with
  | nil => exact ⟨[], (List.append_nil _).symm, fun _ ha => absurd ha List.not_mem_nil⟩
  | cons act rest ih =>
    obtain ⟨made, hmade, hsince⟩ := ih (j.act src act).2 fun h => hclear (List.mem_cons_of_mem _ h)
    have hlater : ∀ a ∈ made, src.time j.readings ≤ a.createdAt := fun a ha =>
      (hclock _ _ (readings_le_act src j act)).trans (hsince a ha)
    cases act with
    | record stableId version definition context e =>
      refine ⟨(j.record src stableId version definition context e).1 :: made, ?_, ?_⟩
      · rw [Journal.actAll, hmade, Journal.act, record_store, List.append_assoc,
          List.singleton_append]
      · exact List.forall_mem_cons.mpr ⟨le_refl _, hlater⟩
    | clear => exact absurd List.mem_cons_self hclear
    | readClock => exact ⟨made, hmade, hlater⟩

end Journal

/-- **What a request records is recorded from now on.** -/
theorem Engine.since_perform {src : Sources} (hclock : src.Steady) {r : Request} (e : Engine)
    (h : r ≠ .clearArtifacts) : ∃ made,
      (e.perform src r).2.journal.store.artifacts = e.journal.store.artifacts ++ made ∧
        ∀ a ∈ made, e.MayRecord r a ∧ src.time e.journal.readings ≤ a.createdAt := by
  obtain ⟨made, hmay, hmade⟩ := e.artifacts_perform src h
  obtain ⟨acts, hacts, hclear⟩ := e.journal_perform src r
  obtain ⟨made', hmade', hsince⟩ := Journal.since_actAll hclock acts e.journal fun hmem =>
    h (hclear hmem)
  rw [← hacts, hmade] at hmade'
  obtain rfl : made = made' := List.append_cancel_left hmade'
  exact ⟨made, hmade, fun a ha => ⟨hmay a ha, hsince a ha⟩⟩

/-! ## Sessions -/

namespace Session

variable {ι : Type} {src : Sources} {who : ι}

/-- **A session is in order of time**: its catalogs and its journal are, up to what the clock shows
next. -/
structure Timely (src : Sources) (s : Session ι) : Prop where
  catalogs : ∀ who, (s.catalogs who).Timely (src.time s.journal.readings)
  journal : s.journal.Timely src

theorem timely_empty (src : Sources) : (empty : Session ι).Timely src :=
  ⟨fun _ => Catalog.timely_empty _, .nil, fun _ ha => absurd ha List.not_mem_nil⟩

variable [DecidableEq ι]

/-- **A request keeps a session in order of time.** -/
theorem Timely.perform (hclock : src.Steady) (who : ι) (r : Request) {s : Session ι}
    (h : s.Timely src) : (s.perform src who r).2.Timely src := by
  obtain ⟨acts, hacts, -⟩ := (s.engine who).journal_perform src r
  have hjournal : (s.perform src who r).2.journal = (Journal.actAll src acts s.journal).2 := hacts
  have hnow : src.time s.journal.readings ≤ src.time (s.perform src who r).2.journal.readings := by
    rw [hjournal]
    exact hclock _ _ (Journal.readings_le_actAll src acts s.journal)
  refine ⟨fun i => ?_, ?_⟩
  · by_cases hi : i = who
    · subst hi
      exact ((s.effect_perform src i r).timely (h.catalogs i)).mono hnow
    · rw [catalogs_perform_of_ne hi]
      exact (h.catalogs i).mono hnow
  · rw [hjournal]
    exact h.journal.actAll hclock acts

theorem timely_run (hclock : src.Steady) (requests : List (ι × Request)) :
    (run src requests empty).2.Timely src :=
  run_invariant (fun who r _ => Timely.perform hclock who r) requests (timely_empty src)

/-- **The versions of a rule go on in time through every run** that does not empty the catalog. -/
theorem advances_run (hclock : src.Steady) (id : String) {requests : List (ι × Request)}
    {s : Session ι} (hs : s.Timely src) (hclear : (who, Request.clearCatalog) ∉ requests) :
    (s.catalogs who).Advances ((s.run src requests).2.catalogs who) id := by
  exact catalogs_run (P := Timely src) (R := fun c c' => c.Advances c' id) (fun c => .refl c id)
    .trans (fun i r _ => Timely.perform hclock i r)
    (fun r s hs hr => (s.effect_perform src who r).advances hr (hs.catalogs who) id) hs hclear

/-- **The times tell the order of what happened**, in every session whose clock never goes back.
The versions of a rule were created in the order of their numbers; a version was created before it
was updated, and was put in force between the two if it is in force; and however things go on,
unless the catalog is emptied, it is never found updated earlier.  Artifacts were created in the
order in which they are stored.  And what an engine records when it runs a rule was created after
the version that it names, in the catalog of this engine as it is then or later.

Numbers are naturals and do not wrap around.  In a word of thirty-two bits they would only after
`2 ^ 32` requests (`version_le_of_run`). -/
theorem chronological_of_run (hclock : src.Steady) (front back : List (ι × Request))
    (who : ι) :
    let s := (run src front empty).2
    (∀ id versions, (s.catalogs who).versions id = .ok versions →
      versions.Pairwise (fun v w => v.version < w.version ∧ v.createdAt ≤ w.createdAt) ∧
      ∀ v ∈ versions, v.createdAt ≤ v.updatedAt ∧
        (v.status = .published →
          ∃ t, v.publishedAt = some t ∧ v.createdAt ≤ t ∧ t ≤ v.updatedAt) ∧
        ((who, Request.clearCatalog) ∉ back → ∃ w,
          (∀ latest, ((s.run src back).2.catalogs who).get id (some v.version) latest = .ok w) ∧
            v.updatedAt ≤ w.updatedAt)) ∧
    s.journal.store.artifacts.Pairwise (fun a b => a.createdAt ≤ b.createdAt) ∧
    ∀ asked : Request, asked.RunsRule → (who, Request.clearCatalog) ∉ back →
      let recorded := (s.perform src who asked).2
      ∃ made, recorded.journal.store.artifacts = s.journal.store.artifacts ++ made ∧
        ∀ a ∈ made, ∃ id number v, a.stableId = some id ∧ a.version = some number ∧
          (∀ latest, ((recorded.run src back).2.catalogs who).get id (some number) latest = .ok v) ∧
          v.createdAt ≤ a.createdAt := by
  intro s
  have hs : s.Timely src := timely_run hclock front
  have hcounts (id : String) : ∃ t : Tally, t.Counts (s.catalogs who) id :=
    ⟨_, counts_run src who id front empty (Tally.counts_empty id)⟩
  -- What is in the catalog now is found after every run that does not empty it.
  have hfound (requests : List (ι × Request)) (hclear : (who, Request.clearCatalog) ∉ requests)
      (id : String) (v : RuleVersion) (hv : v ∈ (s.catalogs who).history id) : ∃ w,
        (∀ latest, ((s.run src requests).2.catalogs who).get id (some v.version) latest = .ok w) ∧
          w.lasting = v.lasting ∧ v.updatedAt ≤ w.updatedAt := by
    obtain ⟨t, ht⟩ := hcounts id
    exact (advances_run hclock id hs hclear).get (counts_run src who id requests s ht) hv
  refine ⟨fun id versions hversions => ?_, hs.journal.ordered, fun asked hasked hclear => ?_⟩
  · have hhistory : (s.catalogs who).history id = versions :=
      Catalog.history_eq_of_versions hversions
    obtain ⟨t, ht⟩ := hcounts id
    subst hhistory
    refine ⟨ht.pairwise_version.and ((hs.catalogs who).ordered id), fun v hv => ?_⟩
    have htimely := (hs.catalogs who).versions id v hv
    refine ⟨htimely.created_le_updated, htimely.published_between, fun hclear => ?_⟩
    obtain ⟨w, hw, -, hupdated⟩ := hfound back hclear id v hv
    exact ⟨w, hw, hupdated⟩
  · intro recorded
    have hstore : asked ≠ .clearArtifacts := by
      rintro rfl
      exact hasked
    have hkept : (who, Request.clearCatalog) ∉ (who, asked) :: back := by
      rintro (_ | ⟨_, hmem⟩)
      · exact hasked
      · exact hclear hmem
    obtain ⟨made, hmade, hall⟩ := (s.engine who).since_perform hclock hstore
    refine ⟨made, hmade, fun a ha => ?_⟩
    obtain ⟨hmay, hsince⟩ := hall a ha
    obtain ⟨id, _, _, rule, hget, hstableId, hversion, -⟩ := hmay.rule hasked
    obtain ⟨t, ht⟩ := hcounts id
    have hrule : rule ∈ (s.catalogs who).history id := Catalog.mem_history_of_get ht.filled hget
    obtain ⟨v, hv, hlasting, -⟩ := hfound _ hkept id rule hrule
    refine ⟨id, rule.version, v, ?_, hversion, hv, ?_⟩
    · rw [hstableId, ht.stableId_eq hrule]
    · calc v.createdAt = rule.createdAt := congrArg RuleVersion.Lasting.createdAt hlasting
        _ ≤ src.time s.journal.readings := ((hs.catalogs who).versions id rule hrule).created_le
        _ ≤ a.createdAt := hsince

/-- A clock that shows every time twice.  A rule is revised, tested while its second version is in
force, and given other cases for its first; another engine empties its catalog. -/
theorem chronological_of_run_revised :
    let cases : List RegressionCase := [⟨"holds", .emptyObject, .bool true, none⟩]
    let draft : RuleDraft := ⟨"yes", "Yes", none, .bool true, KeyMap.empty, none, cases⟩
    let src : Sources := ⟨fun n => ⟨(n / 2 : Nat), 0⟩, fun n => toString n⟩
    let front : List (Bool × Request) := [(true, .create draft), (false, .create draft),
      (true, .publish "yes" 1 none), (true, .create draft), (true, .publish "yes" 2 none)]
    let asked : Request := .regress ⟨"yes", none, false, []⟩
    let back : List (Bool × Request) :=
      [(true, .replaceCases "yes" 1 cases), (false, .clearCatalog)]
    let s := (run src front empty).2
    let recorded := (s.perform src true asked).2
    src.Steady ∧ asked.RunsRule ∧ (true, Request.clearCatalog) ∉ back ∧
      ∃ u v w a x, (s.catalogs true).versions "yes" = .ok [u, v] ∧ u.createdAt ≤ v.createdAt ∧
        (∃ t, v.publishedAt = some t ∧ v.createdAt ≤ t ∧ t ≤ v.updatedAt) ∧
        ((s.run src back).2.catalogs true).get "yes" (some 1) false = .ok w ∧
        u.updatedAt ≤ w.updatedAt ∧ recorded.journal.store.artifacts = [a] ∧
        ((recorded.run src back).2.catalogs true).get "yes" (some 2) false = .ok x ∧
        x.createdAt ≤ a.createdAt := by
  intro cases draft src front asked back s recorded
  have hclock : src.Steady := fun _ _ hle => Int.ofNat_le.mpr (Nat.div_le_div_right hle)
  have hasked : asked.RunsRule := trivial
  have hclear : (true, Request.clearCatalog) ∉ back := by simp [back]
  obtain ⟨hversions, -, hrecorded⟩ := chronological_of_run hclock front back true
  have hshape : (((s.catalogs true).versions "yes").toOption.getD []).map
      (fun v => (v.version, v.status)) = [(1, .draft), (2, .published)] := by
    decide +kernel
  rcases hlist : (s.catalogs true).versions "yes" with err | versions
  · rw [hlist] at hshape
    cases hshape
  rw [hlist] at hshape
  obtain ⟨u, rest, rfl, hu, hrest⟩ := List.map_eq_cons_iff.mp hshape
  obtain ⟨v, rfl, hv⟩ := List.map_eq_singleton_iff.mp hrest
  obtain ⟨hone, -⟩ := Prod.mk.inj hu
  obtain ⟨-, hpublished⟩ := Prod.mk.inj hv
  obtain ⟨hordered, hall⟩ := hversions "yes" [u, v] hlist
  obtain ⟨-, -, hlater⟩ := hall u List.mem_cons_self
  obtain ⟨-, hbetween, -⟩ := hall v (List.mem_cons_of_mem u List.mem_cons_self)
  obtain ⟨w, hw, hupdated⟩ := hlater hclear
  obtain ⟨made, hmade, hmadeAll⟩ := hrecorded asked hasked hclear
  have hkeys : recorded.journal.store.artifacts.map (fun a => (a.stableId, a.version)) =
      [(some "yes", some 2)] := by
    decide +kernel
  obtain ⟨a, ha, hkey⟩ := List.map_eq_singleton_iff.mp hkeys
  have hnothing : s.journal.store.artifacts = [] := List.length_eq_zero_iff.mp (by decide +kernel)
  have hmadeOne : made = [a] := by rw [← ha, hmade, hnothing, List.nil_append]
  obtain ⟨id, number, x, hid, hnumber, hx, hcreated⟩ :=
    hmadeAll a (hmadeOne ▸ List.mem_singleton_self a)
  obtain ⟨hyes, htwo⟩ := Prod.mk.inj hkey
  obtain rfl : id = "yes" := Option.some.inj (hid.symm.trans hyes)
  obtain rfl : number = 2 := Option.some.inj (hnumber.symm.trans htwo)
  exact ⟨hclock, hasked, hclear, u, v, w, a, x, rfl, (List.rel_of_pairwise_cons hordered
    List.mem_cons_self).2, hbetween hpublished, hone ▸ hw false, hupdated, ha, hx false, hcreated⟩

end Session

end DecisionRules
