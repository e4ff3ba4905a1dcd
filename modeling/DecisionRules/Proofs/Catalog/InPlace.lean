import DecisionRules.Catalog.InPlace
import DecisionRules.Proofs.Catalog.Change

/-!
# Proofs/Catalog/InPlace — a change is made as a whole or not at all

A change is carried out step by step, and nothing takes back what a step has written.  Still it
comes to what `Catalog.append`, `Catalog.publish` and `Catalog.replaceCases` say: all of the change,
or an error and the catalog as it was (`Catalog.Work.carryOut_publish` and its like).  For each step
that can fail this takes a reason: it stands before the first write, or it cannot fail any more
because an earlier step has looked.
-/

namespace DecisionRules.Catalog

/-- The outcome of a change that is made as a whole, or else leaves the catalog as it was. -/
def allOrNothing (c : Catalog) :
    Except CatalogError (RuleVersion × Catalog) → Except CatalogError RuleVersion × Catalog
  | .ok (v, c') => (.ok v, c')
  | .error err => (.error err, c)

namespace Work

variable {α β : Type} {c c' : Catalog} {id : String} {number : Nat}

/-! ## What each step does

A step after one that succeeds starts from the catalog as the first step leaves it; an error ends
the work, and the catalog stays as it is then. -/

theorem carryOut_bind_ok {x : Work α} {a : α} (h : x.carryOut c = (.ok a, c')) (f : α → Work β) :
    (x >>= f).carryOut c = (f a).carryOut c' := by
  change StateT.run (ExceptT.run x) c = _ at h
  change StateT.run (ExceptT.run (x >>= f)) c = _
  rw [ExceptT.run_bind, StateT.run_bind, h]
  rfl

theorem carryOut_bind_error {x : Work α} {err : CatalogError} (h : x.carryOut c = (.error err, c'))
    (f : α → Work β) : (x >>= f).carryOut c = (.error err, c') := by
  change StateT.run (ExceptT.run x) c = _ at h
  change StateT.run (ExceptT.run (x >>= f)) c = _
  rw [ExceptT.run_bind, StateT.run_bind, h]
  rfl

theorem carryOut_versions (id : String) (c : Catalog) :
    (Work.versions id).carryOut c = (c.versions id, c) := by
  have hread : (Work.versions id).carryOut c =
      carryOut (MonadExcept.ofExcept (c.versions id)) c := rfl
  rw [hread]
  rcases c.versions id with err | versions <;> rfl

theorem carryOut_write (id : String) (versions : List RuleVersion) (c : Catalog) :
    (write id versions).carryOut c = (.ok (), c.withHistory id versions) := rfl

/-- A rule that is made first makes no difference once its versions are written. -/
theorem carryOut_versionsOrNew (id : String) (c : Catalog) :
    ∃ c', (versionsOrNew id).carryOut c = (.ok (c.history id), c') ∧
      ∀ versions, c'.withHistory id versions = c.withHistory id versions := by
  have hread : (getThe Catalog : Work Catalog).carryOut c = (.ok c, c) := rfl
  rw [versionsOrNew, carryOut_bind_ok hread, history]
  rcases c.rules.get? id with _ | versions
  · exact ⟨c.withHistory id [], rfl, withHistory_withHistory c id []⟩
  · exact ⟨c, rfl, fun _ => rfl⟩

theorem carryOut_position_none {versions : List RuleVersion}
    (h : versions.findIdx? (·.version == number) = none) (id : String) (c : Catalog) :
    (position id number versions).carryOut c = (.error (.versionNotFound id number), c) := by
  rw [position, h]
  rfl

theorem carryOut_position_some {versions : List RuleVersion} {i : Nat}
    (h : versions.findIdx? (·.version == number) = some i) (id : String) (c : Catalog) :
    (position id number versions).carryOut c = (.ok i, c) := by
  rw [position, h]
  rfl

/-- Changing the version at a position where there is one. -/
theorem carryOut_changeAt {versions : List RuleVersion} {i : Nat} {v : RuleVersion}
    (hversions : c.versions id = .ok versions) (hv : versions[i]? = some v)
    (f : RuleVersion → RuleVersion) : (changeAt id number i f).carryOut c =
      (.ok (f v), c.withHistory id (versions.set i (f v))) := by
  rw [changeAt, carryOut_bind_ok (by rw [carryOut_versions, hversions]), hv]
  rfl

end Work

/-! ## What a change comes to

`Catalog.change` looks for the version after preparing all versions; the steps look before.  The
preparation does not touch the numbers, so both find the same. -/

variable {c : Catalog} {id : String} {number : Nat} {versions : List RuleVersion}

/-- A change goes to the first position with the number. -/
theorem changeFirst_eq (number : Nat) (f : RuleVersion → RuleVersion) :
    ∀ versions : List RuleVersion, changeFirst number f versions =
      (versions.findIdx? (·.version == number)).bind fun i =>
        versions[i]?.map fun v => (f v, versions.set i (f v))
  | [] => rfl
  | v :: rest => by
    rw [changeFirst, List.findIdx?_cons]
    by_cases hv : v.version = number
    · rw [if_pos hv, if_pos (by simpa using hv)]
      rfl
    · rw [if_neg hv, if_neg (by simpa using hv), changeFirst_eq number f rest]
      rcases rest.findIdx? (fun v : RuleVersion => v.version == number) with _ | i
      · rfl
      · rw [Option.bind_some, Option.map_some, Option.bind_some, List.getElem?_cons_succ]
        rcases rest[i]? with _ | w <;> rfl

theorem change_of_versions_error {err : CatalogError} (h : c.versions id = .error err)
    (number : Nat) (before f : RuleVersion → RuleVersion) :
    c.change id number before f = .error err := by
  rw [change, h]
  rfl

/-- Without a version with the number a change fails. -/
theorem change_of_findIdx?_none (hversions : c.versions id = .ok versions)
    (hfind : versions.findIdx? (·.version == number) = none) {before : RuleVersion → RuleVersion}
    (hbefore : ∀ v, (before v).version = v.version) (f : RuleVersion → RuleVersion) :
    c.change id number before f = .error (.versionNotFound id number) := by
  have hfind' : (versions.map before).findIdx? (·.version == number) = none := by
    simpa only [List.findIdx?_map, Function.comp_def, hbefore] using hfind
  rw [change, hversions]
  dsimp only [bind, Except.bind]
  rw [changeFirst_eq, hfind']
  rfl

/-- With one, it changes the version at the position of the number. -/
theorem change_of_findIdx?_some (hversions : c.versions id = .ok versions) {i : Nat}
    (hfind : versions.findIdx? (·.version == number) = some i) {before : RuleVersion → RuleVersion}
    (hbefore : ∀ v, (before v).version = v.version) (f : RuleVersion → RuleVersion) :
    ∃ v, (versions.map before)[i]? = some v ∧ c.change id number before f =
      .ok (f v, c.withHistory id ((versions.map before).set i (f v))) := by
  have hfind' : (versions.map before).findIdx? (·.version == number) = some i := by
    simpa only [List.findIdx?_map, Function.comp_def, hbefore] using hfind
  obtain ⟨hi, -, -⟩ := List.findIdx?_eq_some_iff_getElem.mp hfind'
  have hv : (versions.map before)[i]? = some (versions.map before)[i] :=
    List.getElem?_eq_getElem hi
  refine ⟨_, hv, ?_⟩
  rw [change, hversions]
  dsimp only [bind, Except.bind]
  rw [changeFirst_eq, hfind', Option.bind_some, hv]
  rfl

/-- **A version that a lookup finds by its number can be changed.** -/
theorem exists_change_of_get {preferLatest : Bool} {v : RuleVersion}
    (hget : c.get id (some number) preferLatest = .ok v) {before : RuleVersion → RuleVersion}
    (hbefore : ∀ v, (before v).version = v.version) (f : RuleVersion → RuleVersion) :
    ∃ w c', c.change id number before f = .ok (w, c') := by
  rcases hversions : c.versions id with err | versions
  · rw [Catalog.get, hversions] at hget
    cases hget
  rcases hfind : versions.findIdx? (fun v : RuleVersion => v.version == number) with _ | i
  · have hnone : select versions (some number) preferLatest = none :=
      List.find?_eq_none.mpr fun v hv => Bool.eq_false_iff.mp
        (List.findIdx?_eq_none_iff.mp hfind v hv)
    rw [Catalog.get, hversions] at hget
    dsimp only [bind, Except.bind] at hget
    rw [hnone] at hget
    cases hget
  · obtain ⟨w, -, hchange⟩ := change_of_findIdx?_some hversions hfind hbefore f
    exact ⟨_, _, hchange⟩

namespace Work

/-! ## All or nothing -/

/-- **Appending in place** cannot fail, and comes to an append. -/
theorem carryOut_append (d : RuleDraft) (now : Timestamp) (c : Catalog) :
    (append d now).carryOut c = (.ok (c.append d now).1, (c.append d now).2) := by
  obtain ⟨c', hread, hwrite⟩ := carryOut_versionsOrNew d.stableId c
  rw [append, carryOut_bind_ok hread, carryOut_bind_ok (carryOut_write ..), hwrite, append_eq]
  rfl

/-- **Work that looks its version up before it writes is all or nothing**, if it comes to the change
once the version is found. -/
theorem carryOut_located {k : List RuleVersion → Nat → Work RuleVersion}
    {before f : RuleVersion → RuleVersion} (hbefore : ∀ v, (before v).version = v.version)
    (hfound : ∀ versions i v, c.versions id = .ok versions → (versions.map before)[i]? = some v →
      (k versions i).carryOut c =
        (.ok (f v), c.withHistory id ((versions.map before).set i (f v)))) :
    (Work.versions id >>= fun versions => position id number versions >>= k versions).carryOut c =
      allOrNothing c (c.change id number before f) := by
  rcases hversions : c.versions id with err | versions
  · have hread : (Work.versions id).carryOut c = (.error err, c) := by
      rw [carryOut_versions, hversions]
    rw [carryOut_bind_error hread, change_of_versions_error hversions]
    rfl
  have hread : (Work.versions id).carryOut c = (.ok versions, c) := by
    rw [carryOut_versions, hversions]
  rw [carryOut_bind_ok hread]
  rcases hfind : versions.findIdx? (fun v : RuleVersion => v.version == number) with _ | i
  · rw [carryOut_bind_error (carryOut_position_none hfind id c),
      change_of_findIdx?_none hversions hfind hbefore]
    rfl
  · obtain ⟨v, hv, hchange⟩ := change_of_findIdx?_some hversions hfind hbefore f
    rw [carryOut_bind_ok (carryOut_position_some hfind id c), hfound versions i v hversions hv,
      hchange]
    rfl

/-- **Putting a version in force in place** is all or nothing: once the other versions have been
taken out of force, the version is still where it was found. -/
theorem carryOut_publish (id : String) (number : Nat) (notes : Option String) (now : Timestamp)
    (c : Catalog) :
    (publish id number notes now).carryOut c = allOrNothing c (c.publish id number notes now) := by
  have hdemote (v : RuleVersion) : (demote v).version = v.version := by
    obtain ⟨_, _, h⟩ := demote_eq_with v
    rw [h]
  refine carryOut_located hdemote fun versions i v _ hv => ?_
  rw [carryOut_bind_ok (carryOut_write ..), carryOut_changeAt (versions_withHistory c id _) hv,
    withHistory_withHistory]

/-- **Giving a version other cases in place** is all or nothing. -/
theorem carryOut_replaceCases (id : String) (number : Nat) (cases : List RegressionCase)
    (now : Timestamp) (c : Catalog) : (replaceCases id number cases now).carryOut c =
      allOrNothing c (c.replaceCases id number cases now) := by
  refine carryOut_located (fun _ => rfl) fun versions i v hversions hv => ?_
  rw [List.map_id'] at hv ⊢
  exact carryOut_changeAt hversions hv _

end Work

end DecisionRules.Catalog
