import DecisionRules.Proofs.Catalog.Independence
import DecisionRules.Proofs.Catalog.Lifecycle
import DecisionRules.Proofs.Engine.Provenance

/-!
# Proofs/Catalog/Footprint — a change touches only what it must

A publication goes through the version list of a rule twice: once it takes out of force whatever is
in force, once it puts the version asked for in force, and both times it may meet the same version.
Seen from the outside it is one pass (`Catalog.change_of_mem`), since the second visit does not look
at what the first one wrote (`Catalog.promote_demote`).  Where numbers tell versions apart and one
at most is in force, that pass changes two versions at most (`Catalog.map_publication`); what it
writes into them is all there in `RuleVersion.inForceSince` and `RuleVersion.outOfForce`.

The pass is idempotent version by version, so a publication that is repeated at the same time
changes nothing (`Catalog.publish_publish`).
-/

namespace DecisionRules

/-! ## What is written into a version -/

namespace RuleVersion

/-- A version put in force: the time shows in two places, and notes replace the old ones unless they
are empty. -/
def inForceSince (notes : Option String) (now : Timestamp) (v : RuleVersion) : RuleVersion :=
  { v with
    status := .published
    publishedAt := some now
    updatedAt := now
    revisionNotes := (notes.filter (· ≠ "")).or v.revisionNotes }

/-- A version taken out of force. -/
def outOfForce (v : RuleVersion) : RuleVersion := { v with status := .draft, publishedAt := none }

/-- A version with other cases. -/
def withCases (cases : List RegressionCase) (now : Timestamp) (v : RuleVersion) : RuleVersion :=
  { v with regressionCases := cases, updatedAt := now }

end RuleVersion

namespace Catalog

open RuleVersion

variable {c c' : Catalog} {id : String} {number : Nat} {notes : Option String} {now : Timestamp}
  {before f : RuleVersion → RuleVersion} {versions : List RuleVersion} {u v : RuleVersion}

theorem promote_eq_inForceSince (notes : Option String) (now : Timestamp) (v : RuleVersion) :
    promote notes now v = v.inForceSince notes now := by
  rcases notes with _ | text
  · rfl
  by_cases htext : text = ""
  · subst htext
    rfl
  · have hkept : (some text).filter (· ≠ "") = some text := by simp [htext]
    have hfull : text.isEmpty = false := by simpa [String.isEmpty_iff] using htext
    rw [promote, inForceSince, hkept]
    simp [hfull]

/-! ## One pass -/

/-- What a change makes of a version. -/
def pass (number : Nat) (before f : RuleVersion → RuleVersion) (u : RuleVersion) : RuleVersion :=
  if u.version = number then f (before u) else before u

theorem changeFirst_map (hbefore : ∀ u, (before u).version = u.version)
    (hnodup : (versions.map RuleVersion.version).Nodup) (hv : v ∈ versions) :
    changeFirst v.version f (versions.map before) =
      some (f (before v), versions.map (pass v.version before f)) := by
  induction versions with
  | nil => exact absurd hv List.not_mem_nil
  | cons u rest ih =>
    obtain ⟨hfresh, hnodup⟩ := List.nodup_cons.mp hnodup
    have hapart {w : RuleVersion} (hw : w ∈ rest) : w.version ≠ u.version := by
      intro heq
      exact hfresh (heq ▸ List.mem_map_of_mem hw)
    rw [List.map_cons, List.map_cons, changeFirst, hbefore, pass]
    obtain rfl | hv := List.mem_cons.mp hv
    · have hrest : rest.map (pass v.version before f) = rest.map before :=
        List.map_congr_left fun w hw => if_neg (hapart hw)
      rw [if_pos rfl, if_pos rfl, hrest]
    · rw [if_neg (hapart hv).symm, if_neg (hapart hv).symm, ih hnodup hv]
      rfl

/-- **A change is one pass over a version list**, as long as the numbers tell versions apart. -/
theorem change_of_mem (hversions : c.versions id = .ok versions)
    (hbefore : ∀ u, (before u).version = u.version)
    (hnodup : (versions.map RuleVersion.version).Nodup) (hv : v ∈ versions) :
    c.change id v.version before f =
      .ok (f (before v), c.withHistory id (versions.map (pass v.version before f))) := by
  rw [change, hversions]
  dsimp only [bind, Except.bind]
  rw [changeFirst_map hbefore hnodup hv]
  rfl

/-- A change that succeeds finds the version. -/
theorem exists_of_change (hbefore : ∀ u, (before u).version = u.version)
    (h : c.change id number before f = .ok (v, c')) :
    ∃ versions u, c.versions id = .ok versions ∧ u ∈ versions ∧ u.version = number := by
  obtain ⟨hget, front, w, back, hsplit, -, hw, -, -⟩ := change_eq_ok h
  have hmem : w ∈ (c.history id).map before := by simp [hsplit]
  obtain ⟨u, hu, rfl⟩ := List.mem_map.mp hmem
  exact ⟨c.history id, u, by rw [Catalog.versions, hget], hu, (hbefore u).symm.trans hw⟩

/-- **What a successful change is**: one pass, and nothing but that. -/
theorem change_eq_ok_iff (hbefore : ∀ u, (before u).version = u.version)
    (hnodup : ∀ versions, c.versions id = .ok versions →
      (versions.map RuleVersion.version).Nodup) :
    c.change id number before f = .ok (v, c') ↔ ∃ versions u, c.versions id = .ok versions ∧
      u ∈ versions ∧ u.version = number ∧ v = f (before u) ∧
      c' = c.withHistory id (versions.map (pass number before f)) := by
  constructor
  · intro h
    obtain ⟨versions, u, hversions, hu, rfl⟩ := exists_of_change hbefore h
    rw [change_of_mem hversions hbefore (hnodup versions hversions) hu] at h
    obtain ⟨rfl, rfl⟩ := Prod.mk.inj (Except.ok.inj h)
    exact ⟨versions, u, hversions, hu, rfl, rfl, rfl⟩
  · rintro ⟨versions, u, hversions, hu, rfl, rfl, rfl⟩
    exact change_of_mem hversions hbefore (hnodup versions hversions) hu

/-! ## In order -/

/-- **A catalog that is in order**: the versions of each rule have consecutive numbers, and one of
them at most is in force. -/
structure Orderly (c : Catalog) : Prop where
  consecutive : ∀ id versions, c.versions id = .ok versions →
    ∃ first, versions.map RuleVersion.version = List.range' first versions.length
  single : ∀ id versions, c.versions id = .ok versions → (publishedNumbers versions).length ≤ 1

theorem Orderly.nodup (h : c.Orderly) (hversions : c.versions id = .ok versions) :
    (versions.map RuleVersion.version).Nodup := by
  obtain ⟨first, hfirst⟩ := h.consecutive id versions hversions
  rw [hfirst]
  exact List.nodup_range'

theorem Orderly.exists_inForce (h : c.Orderly) (hversions : c.versions id = .ok versions) :
    ∃ inForce : Option Nat, publishedNumbers versions = inForce.toList := by
  have hlength := h.single id versions hversions
  obtain hnil | hone := Nat.le_one_iff_eq_zero_or_eq_one.mp hlength
  · exact ⟨none, List.length_eq_zero_iff.mp hnil⟩
  · obtain ⟨n, hn⟩ := List.length_eq_one_iff.mp hone
    exact ⟨some n, hn⟩

/-- A version is in force if its number is that of one in force. -/
theorem isPublished_iff (hnodup : (versions.map RuleVersion.version).Nodup) (hu : u ∈ versions) :
    u.isPublished = true ↔ u.version ∈ publishedNumbers versions := by
  constructor
  · intro hpublished
    exact List.mem_map_of_mem (List.mem_filter.mpr ⟨hu, hpublished⟩)
  · intro hmem
    obtain ⟨w, hw, hversion⟩ := List.mem_map.mp hmem
    obtain ⟨hw, hpublished⟩ := List.mem_filter.mp hw
    obtain rfl := List.inj_on_of_nodup_map hnodup hw hu hversion
    exact hpublished

/-- What a publication makes of a version. -/
def publication (number : Nat) (notes : Option String) (now : Timestamp) :
    RuleVersion → RuleVersion :=
  pass number demote (promote notes now)

/-- **A publication in the version list of a rule** puts the version asked for in force, and takes
out the one that was, if it is another one. -/
theorem map_publication {inForce : Option Nat}
    (hnodup : (versions.map RuleVersion.version).Nodup)
    (hinForce : publishedNumbers versions = inForce.toList) :
    versions.map (publication number notes now) = versions.map fun u =>
      if u.version = number then u.inForceSince notes now
      else if inForce = some u.version then u.outOfForce else u := by
  refine List.map_congr_left fun u hu => ?_
  have hpublished : u.isPublished = true ↔ inForce = some u.version := by
    rw [isPublished_iff hnodup hu, hinForce, Option.mem_toList]
  rw [publication, pass, promote_demote, promote_eq_inForceSince, demote]
  exact if_congr Iff.rfl rfl (if_congr hpublished rfl rfl)

/-! ## The same again -/

theorem demote_demote (v : RuleVersion) : demote (demote v) = demote v :=
  if_neg (Bool.eq_false_iff.mp (Tally.isPublished_demote v))

theorem promote_promote (notes : Option String) (now : Timestamp) (v : RuleVersion) :
    promote notes now (promote notes now v) = promote notes now v := by
  have hnotes : (notes.filter (· ≠ "")).or ((notes.filter (· ≠ "")).or v.revisionNotes) =
      (notes.filter (· ≠ "")).or v.revisionNotes := by
    rcases notes.filter (· ≠ "") with _ | text <;> rfl
  rw [promote_eq_inForceSince, promote_eq_inForceSince, inForceSince, inForceSince, hnotes]

theorem version_demote (v : RuleVersion) : (demote v).version = v.version :=
  congrArg Prod.snd (Tally.key_demote v)

theorem version_publication (number : Nat) (notes : Option String) (now : Timestamp)
    (u : RuleVersion) : (publication number notes now u).version = u.version := by
  rw [publication, pass]
  split
  · exact version_demote u
  · exact version_demote u

/-- **A publication is idempotent**, version by version. -/
theorem publication_publication (number : Nat) (notes : Option String) (now : Timestamp)
    (u : RuleVersion) : publication number notes now (publication number notes now u) =
      publication number notes now u := by
  rw [publication, pass, ← publication, version_publication, publication, pass]
  split
  · simp only [promote_demote, promote_promote]
  · exact demote_demote u

/-- So a publication that succeeded succeeds once more, and changes nothing. -/
theorem publish_publish (h : c.Orderly) (hpublish : c.publish id number notes now = .ok (v, c')) :
    c'.publish id number notes now = .ok (v, c') := by
  have hnodup (versions : List RuleVersion) (hversions : c.versions id = .ok versions) :=
    h.nodup hversions
  obtain ⟨versions, u, hversions, hu, hnumber, rfl, rfl⟩ :=
    (change_eq_ok_iff version_demote hnodup).mp hpublish
  have hagain := versions_withHistory c id (versions.map (publication number notes now))
  refine (change_eq_ok_iff version_demote fun versions' hversions' => ?nodup).mpr
    ⟨_, _, hagain, List.mem_map_of_mem hu, (version_publication ..).trans hnumber, ?same, ?kept⟩
  case nodup =>
    obtain rfl := Except.ok.inj (hagain.symm.trans hversions')
    simpa [Function.comp_def, version_publication] using h.nodup hversions
  case same =>
    rw [publication, pass, if_pos hnumber]
    simp only [promote_demote, promote_promote]
  case kept =>
    have hpass : (versions.map (publication number notes now)).map (publication number notes now) =
        versions.map (publication number notes now) := by
      rw [List.map_map]
      exact List.map_congr_left fun w _ => publication_publication number notes now w
    exact (congrArg (c.withHistory id) hpass).symm.trans (withHistory_withHistory ..).symm

end Catalog

/-! ## What a request touches -/

namespace Engine

theorem catalogOutcome_settle_eq_ok_iff {e : Engine} {c' : Catalog} {answer : Answer}
    {outcome : Except CatalogError (RuleVersion × Catalog)} :
    catalogOutcome (answering .version (e.settle outcome)) = (.ok answer, c') ↔
      ∃ v, answer = .version v ∧ outcome = .ok (v, c') := by
  obtain err | ⟨v, c⟩ := outcome
  · constructor
    · intro h
      cases h
    · rintro ⟨v, -, h⟩
      cases h
  · constructor
    · intro h
      obtain ⟨hanswer, rfl⟩ := Prod.mk.inj h
      exact ⟨v, (Except.ok.inj hanswer).symm, rfl⟩
    · rintro ⟨v', rfl, h⟩
      obtain ⟨rfl, rfl⟩ := Prod.mk.inj (Except.ok.inj h)
      rfl

end Engine

namespace Catalog

variable {c c' : Catalog} {id : String} {number : Nat} {now : Timestamp} {answer : Answer}

theorem performAt_publish_eq_ok_iff {notes : Option String} :
    c.performAt now (.publish id number notes) = (.ok answer, c') ↔
      ∃ v, answer = .version v ∧ c.publish id number notes now = .ok (v, c') := by
  rw [performAt, Engine.perform, Engine.publish_eq]
  exact Engine.catalogOutcome_settle_eq_ok_iff

theorem performAt_replaceCases_eq_ok {cases : List RegressionCase}
    (h : c.performAt now (.replaceCases id number cases) = (.ok answer, c')) :
    ∃ v, answer = .version v ∧ c.replaceCases id number cases now = .ok (v, c') := by
  rw [performAt, Engine.perform] at h
  obtain ⟨err, hreplace⟩ | ⟨-, hreplace⟩ := Engine.replaceCases_cases ⟨fun _ => now, fun _ => ""⟩ id
    number cases ⟨c, Journal.empty⟩
  · rw [hreplace] at h
    cases h
  · rw [hreplace] at h
    exact Engine.catalogOutcome_settle_eq_ok_iff.mp h

end Catalog

/-- **Catalogs stay in order**: after any run of a session each of them is. -/
theorem Session.orderly_run {ι : Type} [DecidableEq ι] (src : Sources)
    (requests : List (ι × Request)) (who : ι) :
    ((run src requests empty).2.catalogs who).Orderly := by
  have hcounts (id : String) := counts_run src who id requests empty (Tally.counts_empty id)
  constructor
  · intro id versions hversions
    have hnumbers := (hcounts id).numbers_eq
    rw [Catalog.history_eq_of_versions hversions] at hnumbers
    have hlength := congrArg List.length hnumbers
    rw [List.length_map, List.length_range'] at hlength
    exact ⟨1, hlength ▸ hnumbers⟩
  · intro id versions hversions
    rw [← Catalog.history_eq_of_versions hversions, (hcounts id).published_eq]
    exact Option.length_toList_le

namespace Catalog

variable {c c' : Catalog} {id : String} {number : Nat} {now : Timestamp} {answer : Answer}

/-- **A publication and a replacement of cases touch only what they must.**  Let a catalog be in
order.

A publication that succeeds puts the version with the number in force, with the time and with notes
that are not empty, and answers with it.  If another version of the rule was in force, it no longer
is and has no time of publication any more.  All other versions stay, and all other rules.  The same
publication at the same time succeeds again, with the same answer, and changes nothing.

A replacement of cases that succeeds gives the version with the number these cases and the time, and
answers with it.  All other versions and rules stay. -/
theorem footprint (h : c.Orderly) :
    (∀ notes, c.performAt now (.publish id number notes) = (.ok answer, c') →
      ∃ versions v inForce, c.versions id = .ok versions ∧ v ∈ versions ∧ v.version = number ∧
        publishedNumbers versions = Option.toList inForce ∧
        answer = .version (v.inForceSince notes now) ∧
        c'.versions id = .ok (versions.map fun u =>
          if u.version = number then u.inForceSince notes now
          else if inForce = some u.version then u.outOfForce else u) ∧
        (∀ other, other ≠ id → c'.versions other = c.versions other) ∧
        c'.performAt now (.publish id number notes) = (.ok answer, c')) ∧
    ∀ cases, c.performAt now (.replaceCases id number cases) = (.ok answer, c') →
      ∃ versions v, c.versions id = .ok versions ∧ v ∈ versions ∧ v.version = number ∧
        answer = .version (v.withCases cases now) ∧
        c'.versions id = .ok (versions.map fun u =>
          if u.version = number then u.withCases cases now else u) ∧
        ∀ other, other ≠ id → c'.versions other = c.versions other := by
  have hnodup (versions : List RuleVersion) (hversions : c.versions id = .ok versions) :=
    h.nodup hversions
  constructor
  · intro notes hperform
    obtain ⟨v, rfl, hpublish⟩ := performAt_publish_eq_ok_iff.mp hperform
    have hagain := publish_publish h hpublish
    obtain ⟨versions, u, hversions, hu, hnumber, rfl, rfl⟩ :=
      (change_eq_ok_iff version_demote hnodup).mp hpublish
    obtain ⟨inForce, hinForce⟩ := h.exists_inForce hversions
    refine ⟨versions, u, inForce, hversions, hu, hnumber, hinForce, ?answer, ?list,
      fun other hother => versions_withHistory_of_ne hother c _,
      performAt_publish_eq_ok_iff.mpr ⟨_, rfl, hagain⟩⟩
    case answer => rw [promote_demote, promote_eq_inForceSince]
    case list =>
      rw [versions_withHistory, ← publication, map_publication (hnodup versions hversions) hinForce]
  · intro cases hperform
    obtain ⟨v, rfl, hreplace⟩ := performAt_replaceCases_eq_ok hperform
    obtain ⟨versions, u, hversions, hu, hnumber, rfl, rfl⟩ :=
      (change_eq_ok_iff (fun _ => rfl) hnodup).mp hreplace
    exact ⟨versions, u, hversions, hu, hnumber, rfl, versions_withHistory c id _,
      fun other hother => versions_withHistory_of_ne hother c _⟩

/-- Two versions, of which the first is in force.  The second one takes its place, and the first
keeps its notes and the time of its last change; empty notes change none.  Other cases for the first
one leave it in force. -/
theorem footprint_second :
    let first : RuleVersion := ⟨"fee", 1, "Fee", none, KeyMap.empty, .bool true, .published, ⟨0, 0⟩,
      ⟨5, 0⟩, some ⟨5, 0⟩, some "first", []⟩
    let second : RuleVersion := ⟨"fee", 2, "Fee", none, KeyMap.empty, .bool false, .draft, ⟨1, 0⟩,
      ⟨1, 0⟩, none, some "second", []⟩
    let c : Catalog := empty.withHistory "fee" [first, second]
    let cases : List RegressionCase := [⟨"plain", .null, .bool true, none⟩]
    (∃ answer c', c.performAt ⟨9, 0⟩ (.publish "fee" 2 (some "")) = (.ok answer, c') ∧
      c'.versions "fee" = .ok [first.outOfForce, second.inForceSince none ⟨9, 0⟩] ∧
      c'.performAt ⟨9, 0⟩ (.publish "fee" 2 (some "")) = (.ok answer, c')) ∧
    ∃ answer c', c.performAt ⟨9, 0⟩ (.replaceCases "fee" 1 cases) = (.ok answer, c') ∧
      c'.versions "fee" = .ok [first.withCases cases ⟨9, 0⟩, second] := by
  intro first second c cases
  have hfee : c.versions "fee" = .ok [first, second] := versions_withHistory empty "fee" _
  have hall (id : String) (versions : List RuleVersion) (hversions : c.versions id = .ok versions) :
      versions = [first, second] := by
    by_cases hid : id = "fee"
    · rw [hid, hfee] at hversions
      exact (Except.ok.inj hversions).symm
    · rw [versions_withHistory_of_ne hid] at hversions
      cases hversions
  have horderly : c.Orderly := by
    constructor
    · intro id versions hversions
      rw [hall id versions hversions]
      exact ⟨1, rfl⟩
    · intro id versions hversions
      rw [hall id versions hversions]
      exact Nat.le_refl 1
  have hpublish : ∃ answer c', c.performAt ⟨9, 0⟩ (.publish "fee" 2 (some "")) = (.ok answer, c') :=
    ⟨_, _, rfl⟩
  have hreplace : ∃ answer c', c.performAt ⟨9, 0⟩ (.replaceCases "fee" 1 cases) = (.ok answer, c') :=
    ⟨_, _, rfl⟩
  obtain ⟨answer, c', hpublish⟩ := hpublish
  obtain ⟨versions, v, inForce, hversions, -, -, hinForce, -, hlist, -, hagain⟩ :=
    (footprint horderly).1 _ hpublish
  obtain ⟨answer', c'', hreplace⟩ := hreplace
  obtain ⟨versions', -, hversions', -, -, -, hlist', -⟩ := (footprint horderly).2 _ hreplace
  rw [hall _ _ hversions] at hlist hinForce
  rw [hall _ _ hversions'] at hlist'
  obtain rfl : some 1 = inForce := (congrArg List.head? hinForce).trans Option.head?_toList
  exact ⟨⟨answer, c', hpublish, hlist, hagain⟩, answer', c'', hreplace, hlist'⟩

end Catalog

end DecisionRules
