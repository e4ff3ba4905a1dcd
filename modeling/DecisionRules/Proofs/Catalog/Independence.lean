import DecisionRules.Proofs.Engine.Step
import DecisionRules.Proofs.Value.KeyOrder

/-!
# Proofs/Catalog/Independence — requests about different rules do not meet

A request about one rule is work on the version list of that rule: no other list has a say in it,
and no other list is written (`Engine.exists_onList`).  Two pieces of work on different lists can be
done in either order, since a map of rules has one form whatever the order of its insertions
(`Catalog.onList_comm`).

Clients that share a catalog and work on different rules therefore get the answers that each of them
would get alone, however their requests come in (`Catalog.independent_of_rule?_ne`).  What carries
this through a run is that the shared catalog and the one a client would have alone agree on the
rules of this client (`Catalog.AgreeOn`), and on no more than these.
-/

namespace DecisionRules

/-! ## Maps and insertions -/

namespace KeyMap

variable {α : Type}

/-- A map is what look-up finds in it. -/
theorem ext_get? {m m' : KeyMap α} (h : ∀ key, m.get? key = m'.get? key) : m = m' := by
  obtain ⟨entries, hsorted⟩ := m
  obtain ⟨entries', hsorted'⟩ := m'
  obtain rfl : entries = entries' := hsorted.ext hsorted' h
  rfl

/-- **Insertions under different keys can be made in either order.** -/
theorem insert_comm {key key' : String} (h : key ≠ key') (m : KeyMap α) (value value' : α) :
    (m.insert key value).insert key' value' = (m.insert key' value').insert key value := by
  refine ext_get? fun other => ?_
  simp only [get?_insert]
  by_cases hkey : other = key
  · rw [if_neg (hkey ▸ h), if_pos hkey, if_pos hkey]
  · rw [if_neg hkey, if_neg hkey]

end KeyMap

/-! ## Work on one version list -/

namespace Catalog

/-- Work on the version list of a rule: what it answers, and the list that it puts in place, if any.
It is given no list for a rule that is not there. -/
abbrev ListWork : Type :=
  Option (List RuleVersion) → Except EngineError Answer × Option (List RuleVersion)

/-- The catalog with another version list for a rule, if there is one to put in place. -/
def put (c : Catalog) (id : String) : Option (List RuleVersion) → Catalog
  | some versions => c.withHistory id versions
  | none => c

/-- Has work done on the version list of a rule. -/
def onList (c : Catalog) (id : String) (work : ListWork) : Except EngineError Answer × Catalog :=
  ((work (c.rules.get? id)).1, c.put id (work (c.rules.get? id)).2)

variable {c c' : Catalog} {id id' : String}

theorem get?_put (c : Catalog) (id : String) (versions : Option (List RuleVersion))
    (other : String) : (c.put id versions).rules.get? other =
      if other = id then versions.or (c.rules.get? id) else c.rules.get? other := by
  rcases versions with _ | versions
  · split
    case isTrue h => rw [h]; rfl
    case isFalse => rfl
  · exact get?_withHistory c id versions other

theorem put_comm (h : id ≠ id') (c : Catalog) (versions versions' : Option (List RuleVersion)) :
    (c.put id versions).put id' versions' = (c.put id' versions').put id versions := by
  rcases versions with _ | versions
  · rfl
  rcases versions' with _ | versions'
  · rfl
  exact congrArg mk (KeyMap.insert_comm h c.rules versions versions')

/-- **Work on one list leaves the other lists alone.** -/
theorem get?_onList_of_ne (h : id' ≠ id) (c : Catalog) (work : ListWork) :
    (c.onList id work).2.rules.get? id' = c.rules.get? id' := by
  rw [onList, get?_put, if_neg h]

/-- **Work on different lists can be done in either order**: both times it answers the same, and
leaves the same catalog. -/
theorem onList_comm (h : id ≠ id') (c : Catalog) (work work' : ListWork) :
    ((c.onList id work).2.onList id' work').1 = (c.onList id' work').1 ∧
      ((c.onList id work).2.onList id' work').2 = ((c.onList id' work').2.onList id work).2 := by
  have hread : (c.onList id work).2.rules.get? id' = c.rules.get? id' :=
    get?_onList_of_ne h.symm c work
  have hread' : (c.onList id' work').2.rules.get? id = c.rules.get? id :=
    get?_onList_of_ne h c work'
  constructor
  · rw [onList, hread]
    rfl
  · change (c.onList id work).2.put id' (work' ((c.onList id work).2.rules.get? id')).2 =
      (c.onList id' work').2.put id (work ((c.onList id' work').2.rules.get? id)).2
    rw [hread, hread']
    exact put_comm h c _ _

/-! ## The work there is -/

theorem versions_congr (h : c.rules.get? id = c'.rules.get? id) :
    c.versions id = c'.versions id := by
  rw [versions, versions, h]

theorem get_congr (h : c.rules.get? id = c'.rules.get? id) (version : Option Nat)
    (preferLatest : Bool) : c.get id version preferLatest = c'.get id version preferLatest := by
  unfold Catalog.get
  rw [versions_congr h]

/-- What a change makes of the version list of a rule: the version it changed, and all of them. -/
def changeIn (id : String) (number : Nat) (before f : RuleVersion → RuleVersion) :
    Option (List RuleVersion) → Except CatalogError (RuleVersion × List RuleVersion)
  | none => .error (.ruleNotFound id)
  | some versions =>
    match changeFirst number f (versions.map before) with
    | some changed => .ok changed
    | none => .error (.versionNotFound id number)

theorem change_eq_changeIn (c : Catalog) (id : String) (number : Nat)
    (before f : RuleVersion → RuleVersion) : c.change id number before f =
      (changeIn id number before f (c.rules.get? id)).map fun changed =>
        (changed.1, c.withHistory id changed.2) := by
  rw [change, versions]
  rcases c.rules.get? id with _ | versions
  · rfl
  · dsimp only [bind, Except.bind, changeIn]
    rcases changeFirst number f (versions.map before) with _ | changed <;> rfl

namespace ListWork

/-- Refusing, whatever the list. -/
def refuse (err : EngineError) : ListWork := fun _ => (.error err, none)

/-- Appending the next version. -/
def append (d : RuleDraft) (now : Timestamp) : ListWork := fun versions =>
  let made := draftVersion d (nextNumber (versions.getD [])) now
  (.ok (.version made), some (versions.getD [] ++ [made]))

/-- Changing one version. -/
def change (id : String) (number : Nat) (before f : RuleVersion → RuleVersion) : ListWork :=
  fun versions =>
    let changed := changeIn id number before f versions
    ((changed.mapError .catalog).map fun changed => .version changed.1,
      changed.toOption.map (·.2))

/-- Reading: a question about a rule, asked of a catalog that has no other rule. -/
def read {α : Type} (wrap : α → Answer) (ask : Catalog → Except CatalogError α) (id : String) :
    ListWork := fun versions =>
  (((ask (empty.put id versions)).mapError .catalog).map wrap, none)

end ListWork

/-- A question that depends on one version list only is work on this list. -/
theorem onList_read {α : Type} {ask : Catalog → Except CatalogError α}
    (hask : ∀ c c' : Catalog, c.rules.get? id = c'.rules.get? id → ask c = ask c')
    (wrap : α → Answer) (c : Catalog) :
    c.onList id (.read wrap ask id) = (((ask c).mapError .catalog).map wrap, c) := by
  have hsame : ask (empty.put id (c.rules.get? id)) = ask c := by
    refine hask _ _ ?_
    rw [get?_put, if_pos rfl]
    exact Option.or_none
  rw [onList, ListWork.read, hsame]
  rfl

end Catalog

/-! ## Requests about one rule -/

/-- The one rule that a request to a catalog is about. -/
def Request.rule? : Request → Option String
  | .create d | .createUnvalidated d => some d.stableId
  | .publish id _ _ | .get id _ _ | .versions id | .replaceCases id _ _ => some id
  | _ => none

namespace Engine

/-- An outcome, with the catalog that it leaves. -/
def catalogOutcome {α : Type} (outcome : α × Engine) : α × Catalog := (outcome.1, outcome.2.catalog)

/-- A change that is settled is work on a version list. -/
theorem settle_change (e : Engine) (id : String) (number : Nat)
    (before f : RuleVersion → RuleVersion) :
    catalogOutcome (answering .version (e.settle (e.catalog.change id number before f))) =
      e.catalog.onList id (.change id number before f) := by
  rw [Catalog.change_eq_changeIn, Catalog.onList, Catalog.ListWork.change]
  rcases Catalog.changeIn id number before f (e.catalog.rules.get? id) with err | changed <;> rfl

/-- So is creating a version without validation. -/
theorem exists_onList_createUnvalidated (now : Timestamp) (d : RuleDraft) :
    ∃ work, ∀ (src : Sources) (e : Engine), src.time e.journal.readings = now →
      catalogOutcome (answering .version (e.createUnvalidated src d)) =
        e.catalog.onList d.stableId work := by
  rcases hcheck : d.check with fault | ⟨⟩
  · refine ⟨.refuse (.catalog (.invalidRule fault)), fun src e _ => ?_⟩
    rw [createUnvalidated, hcheck]
    rfl
  · refine ⟨.append d now, fun src e hnow => ?_⟩
    rw [createUnvalidated_of_check src hcheck, hnow, Catalog.append_eq]
    rfl

/-- And creating one with validation. -/
theorem exists_onList_create (now : Timestamp) (d : RuleDraft) :
    ∃ work, ∀ (src : Sources) (e : Engine), src.time e.journal.readings = now →
      catalogOutcome (answering .version (e.create src d)) = e.catalog.onList d.stableId work := by
  rcases hcheck : d.check with fault | ⟨⟩
  · refine ⟨.refuse (.catalog (.invalidRule fault)), fun src e _ => ?_⟩
    rw [create, hcheck]
    rfl
  rcases hvalid : validate d.definition with err | ⟨⟩
  · refine ⟨.refuse (.eval err), fun src e _ => ?_⟩
    rw [create, hcheck, hvalid]
    rfl
  · obtain ⟨work, hwork⟩ := exists_onList_createUnvalidated now d
    refine ⟨work, fun src e hnow => ?_⟩
    rw [create, hcheck, hvalid]
    exact hwork src e hnow

/-- And giving a version other cases. -/
theorem exists_onList_replaceCases (now : Timestamp) (id : String) (number : Nat)
    (cases : List RegressionCase) :
    ∃ work, ∀ (src : Sources) (e : Engine), src.time e.journal.readings = now →
      catalogOutcome (answering .version (e.replaceCases src id number cases)) =
        e.catalog.onList id work := by
  rcases hcheck : Catalog.checkReplacement cases with err | ⟨⟩
  · refine ⟨.refuse (.catalog err), fun src e _ => ?_⟩
    rw [replaceCases, hcheck]
    rfl
  · refine ⟨.change id number (fun v => v)
      fun v => { v with regressionCases := cases, updatedAt := now }, fun src e hnow => ?_⟩
    have hsettle : e.replaceCases src id number cases =
        settle ⟨e.catalog, (e.journal.readClock src).2⟩
          (e.catalog.replaceCases id number cases (src.time e.journal.readings)) := by
      rw [replaceCases, hcheck]
      exact onCatalog_eq_settle (Catalog.Work.carryOut_replaceCases ..)
    rw [hsettle, hnow]
    exact settle_change ⟨e.catalog, _⟩ id number _ _

/-- **A request about a rule is work on the version list of that rule** — which work, depends on the
request and on the time that the clock shows. -/
theorem exists_onList (now : Timestamp) {r : Request} {id : String} (h : r.rule? = some id) :
    ∃ work, ∀ (src : Sources) (e : Engine), src.time e.journal.readings = now →
      catalogOutcome (e.perform src r) = e.catalog.onList id work := by
  rcases r with d | d | ⟨rule, number, notes⟩ | ⟨rule, version, latest⟩ | _ | rule |
    ⟨rule, number, cases⟩ | _ | _ | _ | q | q | rule | rule
  case create =>
    obtain rfl := Option.some.inj h
    exact exists_onList_create now d
  case createUnvalidated =>
    obtain rfl := Option.some.inj h
    exact exists_onList_createUnvalidated now d
  case publish =>
    obtain rfl := Option.some.inj h
    refine ⟨.change rule number Catalog.demote (Catalog.promote notes now), fun src e hnow => ?_⟩
    rw [perform, publish_eq, hnow]
    exact settle_change ⟨e.catalog, _⟩ rule number _ _
  case replaceCases =>
    obtain rfl := Option.some.inj h
    exact exists_onList_replaceCases now rule number cases
  case get =>
    obtain rfl := Option.some.inj h
    refine ⟨.read .version (·.get rule version latest) rule, fun src e _ => ?_⟩
    rw [Catalog.onList_read fun c c' hsame => Catalog.get_congr hsame version latest]
    rfl
  case versions =>
    obtain rfl := Option.some.inj h
    refine ⟨.read .versions (·.versions rule) rule, fun src e _ => ?_⟩
    rw [Catalog.onList_read fun c c' hsame => Catalog.versions_congr hsame]
    rfl
  all_goals cases h

end Engine

/-! ## Either order -/

namespace Catalog

/-- What a request to a catalog comes to while the clock shows one time. -/
def performAt (now : Timestamp) (r : Request) (c : Catalog) : Except EngineError Answer × Catalog :=
  Engine.catalogOutcome (Engine.perform ⟨fun _ => now, fun _ => ""⟩ r ⟨c, Journal.empty⟩)

theorem exists_performAt (now : Timestamp) {r : Request} {id : String} (h : r.rule? = some id) :
    ∃ work, ∀ c : Catalog, c.performAt now r = c.onList id work := by
  obtain ⟨work, hwork⟩ := Engine.exists_onList now h
  exact ⟨work, fun c => hwork ⟨fun _ => now, fun _ => ""⟩ ⟨c, Journal.empty⟩ rfl⟩

/-- **An engine does what its catalog does** at the time that its clock shows next. -/
theorem catalogOutcome_perform (src : Sources) (e : Engine) {r : Request} {id : String}
    (h : r.rule? = some id) : Engine.catalogOutcome (e.perform src r) =
      e.catalog.performAt (src.time e.journal.readings) r := by
  obtain ⟨work, hwork⟩ := Engine.exists_onList (src.time e.journal.readings) h
  exact (hwork src e rfl).trans
    (hwork ⟨fun _ => src.time e.journal.readings, fun _ => ""⟩ ⟨e.catalog, Journal.empty⟩ rfl).symm

/-! ## Clients -/

/-- A request of a client, and what the clock shows for it. -/
structure Call (κ : Type) where
  client : κ
  time : Timestamp
  request : Request

variable {κ : Type}

/-- Carries out calls one after the other; gives each answer with the client that it is for. -/
def serve : List (Call κ) → Catalog → List (κ × Except EngineError Answer) × Catalog
  | [], c => ([], c)
  | call :: rest, c =>
    let (answer, c) := c.performAt call.time call.request
    let (answers, c) := serve rest c
    ((call.client, answer) :: answers, c)

theorem serve_cons (call : Call κ) (rest : List (Call κ)) (c : Catalog) :
    c.serve (call :: rest) =
      ((call.client, (c.performAt call.time call.request).1) ::
          ((c.performAt call.time call.request).2.serve rest).1,
        ((c.performAt call.time call.request).2.serve rest).2) := rfl

/-- **Two catalogs agree on some rules**: each of these has the same versions in both. -/
def AgreeOn (own : String → Prop) (c c' : Catalog) : Prop :=
  ∀ id, own id → c.rules.get? id = c'.rules.get? id

variable {own : String → Prop} {c c' : Catalog} {r : Request} {id : String}

/-- A request about one of these rules is answered alike, and they go on to agree. -/
theorem AgreeOn.performAt (h : AgreeOn own c c') (hrule : r.rule? = some id) (hid : own id)
    (now : Timestamp) : (c.performAt now r).1 = (c'.performAt now r).1 ∧
      AgreeOn own (c.performAt now r).2 (c'.performAt now r).2 := by
  obtain ⟨work, hwork⟩ := exists_performAt now hrule
  have hsame : c.rules.get? id = c'.rules.get? id := h id hid
  rw [hwork, hwork, onList, onList, hsame]
  refine ⟨rfl, fun other hother => ?_⟩
  rw [get?_put, get?_put, hsame, h other hother]

/-- One about another rule does not concern them. -/
theorem AgreeOn.performAt_of_not_own (h : AgreeOn own c c') (hrule : r.rule? = some id)
    (hid : ¬ own id) (now : Timestamp) : AgreeOn own (c.performAt now r).2 c' := by
  obtain ⟨work, hwork⟩ := exists_performAt now hrule
  intro other hother
  have hne : other ≠ id := by
    rintro rfl
    exact hid hother
  rw [hwork, get?_onList_of_ne hne]
  exact h other hother

variable [DecidableEq κ] {who : κ}

/-- **A client is served as if it were alone**, as long as its calls are about its own rules and
nobody else's are. -/
theorem AgreeOn.serve : ∀ {calls : List (Call κ)} {c c' : Catalog}, AgreeOn own c c' →
    (∀ call ∈ calls, ∃ id, call.request.rule? = some id ∧ (own id ↔ call.client = who)) →
      (c.serve calls).1.filter (·.1 = who) =
          (c'.serve (calls.filter (·.client = who))).1 ∧
        AgreeOn own (c.serve calls).2 (c'.serve (calls.filter (·.client = who))).2
  | [], _, _, h, _ => ⟨rfl, h⟩
  | call :: rest, c, c', h, hcalls => by
    rw [List.forall_mem_cons] at hcalls
    obtain ⟨⟨id, hrule, hown⟩, hrest⟩ := hcalls
    by_cases hclient : call.client = who
    · obtain ⟨hanswer, hagree⟩ := h.performAt hrule (hown.mpr hclient) call.time
      obtain ⟨hanswers, hleft⟩ := hagree.serve hrest
      simp only [List.filter_cons, hclient, decide_true, if_true, serve_cons]
      exact ⟨by rw [hanswer, hanswers], hleft⟩
    · have hagree : AgreeOn own (c.performAt call.time call.request).2 c' :=
        h.performAt_of_not_own hrule (mt hown.mp hclient) call.time
      obtain ⟨hanswers, hleft⟩ := hagree.serve hrest
      simp only [List.filter_cons, hclient, decide_false, serve_cons]
      exact ⟨hanswers, hleft⟩

/-- **Rules are independent.**  Two requests about different rules, each with a clock reading of its
own, give the same two answers and leave the same catalog in either order.  So when clients that
work on different rules share a catalog, each of them gets the answers that it would get alone, and
finds its rules as it would have left them alone — whatever the order in which the calls of all of
them come in.  An engine takes part with the readings of its clock. -/
theorem rules_independent (c : Catalog) :
    (∀ (r r' : Request) (id id' : String), r.rule? = some id → r'.rule? = some id' → id ≠ id' →
        ∀ now now' : Timestamp,
          ((c.performAt now r).2.performAt now' r').1 = (c.performAt now' r').1 ∧
          ((c.performAt now' r').2.performAt now r).1 = (c.performAt now r).1 ∧
          ((c.performAt now r).2.performAt now' r').2 =
            ((c.performAt now' r').2.performAt now r).2) ∧
      (∀ calls : List (Call κ), (∀ call ∈ calls, call.request.rule? ≠ none) →
        (∀ call ∈ calls, ∀ other ∈ calls, call.client ≠ other.client →
          call.request.rule? ≠ other.request.rule?) →
        ∀ who : κ,
          (c.serve calls).1.filter (·.1 = who) = (c.serve (calls.filter (·.client = who))).1 ∧
          ∀ call ∈ calls, call.client = who → ∀ id, call.request.rule? = some id →
            (c.serve calls).2.versions id =
              (c.serve (calls.filter (·.client = who))).2.versions id) ∧
      ∀ (src : Sources) (j : Journal) (r : Request), r.rule? ≠ none →
        Engine.catalogOutcome (Engine.perform src r ⟨c, j⟩) =
          c.performAt (src.time j.readings) r := by
  refine ⟨fun r r' id id' hrule hrule' hne now now' => ?_, fun calls hrules hapart who => ?_,
    fun src j r hrule => ?_⟩
  · obtain ⟨work, hwork⟩ := exists_performAt now hrule
    obtain ⟨work', hwork'⟩ := exists_performAt now' hrule'
    simp only [hwork, hwork']
    obtain ⟨hanswer, hleft⟩ := onList_comm hne c work work'
    exact ⟨hanswer, (onList_comm hne.symm c work' work).1, hleft⟩
  · -- The rules of a client are those that its calls are about.
    let own (id : String) : Prop :=
      ∃ call ∈ calls, call.client = who ∧ call.request.rule? = some id
    have hcalls : ∀ call ∈ calls, ∃ id, call.request.rule? = some id ∧
        (own id ↔ call.client = who) := by
      intro call hcall
      obtain ⟨id, hid⟩ := Option.ne_none_iff_exists'.mp (hrules call hcall)
      refine ⟨id, hid, fun hown => ?_, fun hclient => ⟨call, hcall, hclient, hid⟩⟩
      obtain ⟨other, hother, rfl, hother'⟩ := hown
      by_contra hclient
      exact hapart call hcall other hother hclient (hid.trans hother'.symm)
    have hagree : AgreeOn own c c := fun _ _ => rfl
    obtain ⟨hanswers, hleft⟩ := hagree.serve hcalls
    exact ⟨hanswers, fun call hcall hclient id hid =>
      versions_congr (hleft id ⟨call, hcall, hclient, hid⟩)⟩
  · obtain ⟨id, hid⟩ := Option.ne_none_iff_exists'.mp hrule
    exact catalogOutcome_perform src ⟨c, j⟩ hid

/-- Two clients whose calls are interleaved: one revises a rule while the other asks for a version
that is not there. -/
theorem rules_independent_interleaved :
    let draft (id : String) : RuleDraft := ⟨id, "Rule", none, .bool true, KeyMap.empty, none, []⟩
    let calls : List (Call Bool) :=
      [⟨true, ⟨0, 0⟩, .create (draft "fee")⟩, ⟨false, ⟨1, 0⟩, .create (draft "tax")⟩,
        ⟨true, ⟨2, 0⟩, .publish "fee" 1 none⟩, ⟨false, ⟨3, 0⟩, .publish "tax" 2 none⟩,
        ⟨true, ⟨4, 0⟩, .create (draft "fee")⟩, ⟨true, ⟨5, 0⟩, .get "fee" none false⟩]
    (∀ call ∈ calls, call.request.rule? ≠ none) ∧
      (∀ call ∈ calls, ∀ other ∈ calls, call.client ≠ other.client →
        call.request.rule? ≠ other.request.rule?) ∧
      ((empty.serve calls).1.filter (·.1 = true)).length = 4 ∧
      (empty.serve calls).1.filter (·.1 = true) =
        (empty.serve (calls.filter (·.client = true))).1 ∧
      (empty.serve calls).2.versions "fee" =
        (empty.serve (calls.filter (·.client = true))).2.versions "fee" := by
  intro draft calls
  have hrules : ∀ call ∈ calls, call.request.rule? ≠ none := by decide
  have hapart : ∀ call ∈ calls, ∀ other ∈ calls, call.client ≠ other.client →
      call.request.rule? ≠ other.request.rule? := by decide
  obtain ⟨hanswers, hleft⟩ := (rules_independent empty).2.1 calls hrules hapart true
  exact ⟨hrules, hapart, by decide +kernel, hanswers,
    hleft ⟨true, ⟨0, 0⟩, .create (draft "fee")⟩ List.mem_cons_self rfl "fee" rfl⟩

end Catalog

end DecisionRules
