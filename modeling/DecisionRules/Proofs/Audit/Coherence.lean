import DecisionRules.Proofs.Engine.Step

/-!
# Proofs/Audit/Coherence — the list and the index of a store tell the same

A store keeps its artifacts twice, and every operation writes both.  After any run of recording and
emptying the two are views of one log, the artifacts recorded since the store was last emptied
(`Journal.store_shows_log`) — provided that no name is given out twice, since the index has room for
one artifact under each id.

What carries the proof is that the ids in the log are names already given out (`Journal.Keeps`): the
next one is new to the index.  Sessions are covered because their engines do nothing else to the
journal they share (`Session.journal_run`).
-/

namespace DecisionRules

namespace Journal

/-! ## What is done to a journal -/

/-- What is done to a journal by the engines that share it. -/
inductive Act
  /-- An evaluation is recorded. -/
  | record (stableId : Option String) (version : Option Nat) (definition context : Value)
      (e : Evaluation)
  /-- The store is emptied. -/
  | clear
  /-- The clock is read, for something that is not recorded. -/
  | readClock

/-- Carries out an act; gives back what it recorded. -/
def act (src : Sources) (j : Journal) : Act → Option Artifact × Journal
  | .record stableId version definition context e =>
    (some (j.record src stableId version definition context e).1,
      (j.record src stableId version definition context e).2)
  | .clear => (none, j.clear)
  | .readClock => (none, (j.readClock src).2)

/-- Carries out acts one after the other; gives back what each of them recorded. -/
def actAll (src : Sources) : List Act → Journal → List (Option Artifact) × Journal
  | [], j => ([], j)
  | a :: rest, j =>
    ((j.act src a).1 :: (actAll src rest (j.act src a).2).1, (actAll src rest (j.act src a).2).2)

/-- What a log is once an act has given back what it recorded. -/
def Act.extend (past : List Artifact) : Act × Option Artifact → List Artifact
  | (.clear, _) => []
  | (_, made) => past ++ made.toList

/-- **The log of acts**: what they recorded since the store was emptied last, oldest first. -/
def log (src : Sources) (acts : List Act) (j : Journal) : List Artifact :=
  (acts.zip (actAll src acts j).1).foldl Act.extend []

variable {src : Sources}

theorem actAll_append (src : Sources) (front back : List Act) (j : Journal) :
    actAll src (front ++ back) j =
      ((actAll src front j).1 ++ (actAll src back (actAll src front j).2).1,
        (actAll src back (actAll src front j).2).2) := by
  induction front generalizing j with
  | nil => rfl
  | cons a rest ih => simp only [List.cons_append, actAll, ih]

@[simp] theorem length_actAll (src : Sources) (acts : List Act) (j : Journal) :
    (actAll src acts j).1.length = acts.length := by
  induction acts generalizing j with
  | nil => rfl
  | cons a rest ih => simp only [actAll, List.length_cons, ih]

/-! ## The invariant -/

/-- **A journal keeps a log**: its store lists the log and finds exactly what is in it, and every id
in it is a name given out before. -/
structure Keeps (src : Sources) (j : Journal) (log : List Artifact) : Prop where
  artifacts_eq : j.store.artifacts = log
  get?_iff : ∀ id a, j.store.get? id = some a ↔ a ∈ log ∧ a.id = id
  named : ∀ a ∈ log, ∃ n < j.issued, a.id = src.name n

theorem keeps_nil {j : Journal} (h : j.store = ArtifactStore.empty) : j.Keeps src [] := by
  refine ⟨?_, ?_, ?_⟩
  · rw [h]
    rfl
  · intro id a
    rw [h]
    simp [ArtifactStore.get?, ArtifactStore.empty]
  · simp

/-- The next name is that of no artifact in the log. -/
theorem Keeps.id_ne_name {j : Journal} {log : List Artifact}
    (hnames : Function.Injective src.name) (h : j.Keeps src log) :
    ∀ a ∈ log, a.id ≠ src.name j.issued := by
  intro a ha heq
  obtain ⟨n, hn, hname⟩ := h.named a ha
  have : n = j.issued := hnames (hname.symm.trans heq)
  omega

/-- Recording enters the new artifact in the index, under its name. -/
theorem record_get? (j : Journal) (stableId : Option String) (version : Option Nat)
    (definition context : Value) (e : Evaluation) (id : String) :
    (j.record src stableId version definition context e).2.store.get? id =
      if id = src.name j.issued
        then some (j.record src stableId version definition context e).1
        else j.store.get? id := KeyMap.get?_insert ..

/-- **Recording keeps the log with the new artifact behind it** — its name is new, so no other
artifact loses its place in the index. -/
theorem Keeps.record {j : Journal} {log : List Artifact} (hnames : Function.Injective src.name)
    (h : j.Keeps src log) (stableId : Option String) (version : Option Nat)
    (definition context : Value) (e : Evaluation) :
    (j.record src stableId version definition context e).2.Keeps src
      (log ++ [(j.record src stableId version definition context e).1]) := by
  refine ⟨?_, ?_, ?_⟩
  · rw [record_store, h.artifacts_eq]
  · intro id a
    rw [record_get?, List.mem_append, List.mem_singleton]
    by_cases hid : id = src.name j.issued
    · rw [if_pos hid]
      constructor
      · intro ha
        obtain rfl := Option.some.inj ha
        exact ⟨.inr rfl, hid.symm⟩
      · rintro ⟨ha | rfl, rfl⟩
        · exact absurd hid (h.id_ne_name hnames a ha)
        · rfl
    · rw [if_neg hid, h.get?_iff id a]
      constructor
      · rintro ⟨ha, rfl⟩
        exact ⟨.inl ha, rfl⟩
      · rintro ⟨ha | rfl, rfl⟩
        · exact ⟨ha, rfl⟩
        · exact absurd rfl hid
  · intro a ha
    have hissued : (j.record src stableId version definition context e).2.issued = j.issued + 1 :=
      rfl
    rcases List.mem_append.mp ha with hold | hnew
    · obtain ⟨n, hn, hname⟩ := h.named a hold
      exact ⟨n, by omega, hname⟩
    · obtain rfl := List.mem_singleton.mp hnew
      exact ⟨j.issued, by omega, rfl⟩

/-- **An act keeps the log as far as it goes on.** -/
theorem Keeps.act {j : Journal} {log : List Artifact} (hnames : Function.Injective src.name)
    (h : j.Keeps src log) (a : Act) :
    (j.act src a).2.Keeps src (Act.extend log (a, (j.act src a).1)) := by
  cases a with
  | record stableId version definition context e =>
    exact h.record hnames stableId version definition context e
  | clear => exact keeps_nil rfl
  | readClock =>
    have hlog : Act.extend log (.readClock, (j.act src .readClock).1) = log := List.append_nil log
    rw [hlog]
    exact ⟨h.artifacts_eq, h.get?_iff, h.named⟩

theorem Keeps.actAll {j : Journal} {past : List Artifact} (hnames : Function.Injective src.name)
    (h : j.Keeps src past) (acts : List Act) :
    (actAll src acts j).2.Keeps src
      ((acts.zip (Journal.actAll src acts j).1).foldl Act.extend past) := by
  induction acts generalizing j past with
  | nil => exact h
  | cons a rest ih => exact ih (h.act hnames a)

/-! ## The log itself -/

/-- What is in a log stays in it until the store is emptied. -/
theorem mem_foldl_extend {a : Artifact} :
    ∀ (events : List (Act × Option Artifact)) {past : List Artifact}, a ∈ past →
      (∀ event ∈ events, event.1 ≠ .clear) → a ∈ events.foldl Act.extend past
  | [], _, ha, _ => ha
  | event :: rest, past, ha, hclear => by
    have hkept : a ∈ Act.extend past event := by
      have hevent : event.1 ≠ .clear := hclear event List.mem_cons_self
      obtain ⟨_ | _ | _, made⟩ := event
      · exact List.mem_append_left _ ha
      · exact absurd rfl hevent
      · exact List.mem_append_left _ ha
    exact mem_foldl_extend rest hkept fun other hother =>
      hclear other (List.mem_cons_of_mem _ hother)

/-- **What an act recorded is in the log**, if the store was not emptied since. -/
theorem mem_log_of_recorded (src : Sources) {front back : List Act} {recording : Act}
    {a : Artifact} (j : Journal) (hclear : .clear ∉ back)
    (ha : ((actAll src front j).2.act src recording).1 = some a) :
    a ∈ log src (front ++ recording :: back) j := by
  have hlength : front.length = (actAll src front j).1.length := (length_actAll src front j).symm
  rw [log, actAll_append, List.zip_append hlength, List.foldl_append]
  simp only [actAll, List.zip_cons_cons, List.foldl_cons, ha]
  refine mem_foldl_extend _ ?_ ?_
  · cases recording with
    | record => exact List.mem_append_right _ (List.mem_singleton_self a)
    | clear => cases ha
    | readClock => cases ha
  · rintro ⟨act, made⟩ hevent rfl
    exact hclear (List.of_mem_zip hevent).1

/-! ## Engines do nothing else -/

/-- Running cases is recording, once for each case before the first failure. -/
theorem runCases_acts (src : Sources) (rule : RuleVersion) :
    ∀ (cases : List RegressionCase) (j : Journal), ∃ acts,
      (j.runCases src rule cases).2 = (actAll src acts j).2 ∧ .clear ∉ acts
  | [], _ => ⟨[], rfl, List.not_mem_nil⟩
  | c :: rest, j => by
    rcases hc : evaluate rule.definition c.context with err | evaluation
    · exact ⟨[], by rw [runCases, hc]; rfl, List.not_mem_nil⟩
    · obtain ⟨acts, hacts, hclear⟩ := runCases_acts src rule rest
        (j.record src (some rule.stableId) (some rule.version) rule.definition c.context
          evaluation).2
      refine ⟨.record (some rule.stableId) (some rule.version) rule.definition c.context
        evaluation :: acts, ?_, ?_⟩
      · rw [runCases, hc]
        exact hacts
      · simpa using hclear

end Journal

/-- **A request acts on the journal and does nothing else to it**; only the one that is meant to
empties the store. -/
theorem Engine.journal_perform (src : Sources) (r : Request) (e : Engine) : ∃ acts,
    (e.perform src r).2.journal = (Journal.actAll src acts e.journal).2 ∧
      (.clear ∈ acts → r = .clearArtifacts) := by
  have still {r : Request} (h : (e.perform src r).2.journal = e.journal) : ∃ acts,
      (e.perform src r).2.journal = (Journal.actAll src acts e.journal).2 ∧
        (.clear ∈ acts → r = .clearArtifacts) :=
    ⟨[], h, by simp⟩
  have read {r : Request} (h : (e.perform src r).2.journal = (e.journal.readClock src).2) :
      ∃ acts, (e.perform src r).2.journal = (Journal.actAll src acts e.journal).2 ∧
        (.clear ∈ acts → r = .clearArtifacts) :=
    ⟨[.readClock], h, by simp⟩
  cases r with
  | create d =>
    obtain ⟨err, h⟩ | ⟨-, -, h⟩ := create_cases src d e
    · exact still (by rw [perform, answering, h])
    · obtain ⟨err, h'⟩ | ⟨-, h'⟩ := createUnvalidated_cases src d e
      · exact still (by rw [perform, answering, h, h'])
      · exact read (by rw [perform, answering, h, h'])
  | createUnvalidated d =>
    obtain ⟨err, h⟩ | ⟨-, h⟩ := createUnvalidated_cases src d e
    · exact still (by rw [perform, answering, h])
    · exact read (by rw [perform, answering, h])
  | publish id number notes =>
    exact read (by rw [perform, answering, publish_eq, settle_journal])
  | replaceCases id number cases =>
    obtain ⟨err, h⟩ | ⟨-, h⟩ := replaceCases_cases src id number cases e
    · exact still (by rw [perform, answering, h])
    · exact read (by rw [perform, answering, h, settle_journal])
  | clearArtifacts => exact ⟨[.clear], rfl, fun _ => rfl⟩
  | evaluate q =>
    obtain ⟨err, h⟩ | ⟨definition, stableId, version, evaluation, -, -, h⟩ := evaluate_cases src q e
    · exact still (by rw [perform, answering, h])
    · exact ⟨[.record stableId version definition q.context evaluation],
        by rw [perform, answering, h]; rfl, by simp⟩
  | regress q =>
    obtain ⟨err, h⟩ | ⟨rule, -, -, h⟩ := regress_cases src q e
    · exact still (by rw [perform, answering, h])
    · obtain ⟨acts, hacts, hclear⟩ := e.journal.runCases_acts src rule (q.chosen rule)
      exact ⟨acts, by rw [perform, answering, h]; exact hacts, fun h => absurd h hclear⟩
  | _ => exact still rfl

namespace Session

variable {ι : Type} [DecidableEq ι] {src : Sources}

/-- **A run of a session is a run of acts on the journal that its engines share.** -/
theorem journal_run (src : Sources) :
    ∀ (requests : List (ι × Request)) (s : Session ι), ∃ acts,
      (s.run src requests).2.journal = (Journal.actAll src acts s.journal).2 ∧
        (.clear ∈ acts → ∃ who, (who, .clearArtifacts) ∈ requests)
  | [], _ => ⟨[], rfl, by simp⟩
  | (who, r) :: rest, s => by
    obtain ⟨first, hfirst, hclear⟩ := (s.engine who).journal_perform src r
    obtain ⟨acts, hacts, hclear'⟩ := journal_run src rest (s.perform src who r).2
    refine ⟨first ++ acts, ?_, fun h => ?_⟩
    · rw [Journal.actAll_append]
      have hstep : (s.perform src who r).2.journal = (Journal.actAll src first s.journal).2 :=
        hfirst
      rw [← hstep]
      exact hacts
    · rcases List.mem_append.mp h with h | h
      · exact ⟨who, by rw [hclear h]; exact List.mem_cons_self⟩
      · obtain ⟨other, hother⟩ := hclear' h
        exact ⟨other, List.mem_cons_of_mem _ hother⟩

/-- **The store shows the log**, after any run of acts by engines that share it, if no name is given
out twice.  It has as many artifacts as the log; it finds an artifact under an id if and only if the
log has it; and it lists for a rule what the log has of this rule, in the same order.  So what was
recorded is found until the store is emptied, and is listed for the one rule it belongs to, or for
none if it belongs to none.  What the engines of a session do to the store is such a run, in which
it is emptied only on request. -/
theorem store_shows_log (hnames : Function.Injective src.name) :
    (∀ acts : List Journal.Act,
      let store := (Journal.actAll src acts Journal.empty).2.store
      let log := Journal.log src acts Journal.empty
      store.size = log.length ∧
        (store.isEmpty = true ↔ log = []) ∧
        (∀ id a, store.get? id = some a ↔ a ∈ log ∧ a.id = id) ∧
        (∀ rule, store.ofRule rule = log.filter fun a => a.stableId == some rule) ∧
        (∀ a ∈ log, ∀ rule, a ∈ store.ofRule rule ↔ a.stableId = some rule) ∧
        ∀ front recording back a, acts = front ++ recording :: back → .clear ∉ back →
          (Journal.act src (Journal.actAll src front Journal.empty).2 recording).1 = some a →
            store.get? a.id = some a) ∧
      ∀ requests : List (ι × Request), ∃ acts,
        (run src requests empty).2.journal = (Journal.actAll src acts Journal.empty).2 ∧
          (.clear ∈ acts → ∃ who, (who, .clearArtifacts) ∈ requests) := by
  refine ⟨fun acts => ?_, fun requests => journal_run src requests empty⟩
  intro store log
  have hkeeps : (Journal.actAll src acts Journal.empty).2.Keeps src log :=
    (Journal.keeps_nil rfl).actAll hnames acts
  have hlist : store.artifacts = log := hkeeps.artifacts_eq
  have hofRule : ∀ rule, store.ofRule rule = log.filter fun a => a.stableId == some rule := by
    intro rule
    rw [ArtifactStore.ofRule, hlist]
  refine ⟨?_, ?_, hkeeps.get?_iff, hofRule, ?_, ?_⟩
  · rw [ArtifactStore.size, hlist]
  · rw [ArtifactStore.isEmpty, ArtifactStore.size, hlist, beq_iff_eq, List.length_eq_zero_iff]
  · intro a ha rule
    rw [hofRule rule, List.mem_filter, beq_iff_eq]
    exact and_iff_right ha
  · rintro front recording back a rfl hclear ha
    exact (hkeeps.get?_iff a.id a).mpr ⟨Journal.mem_log_of_recorded src _ hclear ha, rfl⟩

/-- A record that is dropped, then one of a rule and one of an expression that belongs to none. -/
theorem store_shows_log_cleared :
    let src : Sources := ⟨fun n => ⟨n, 0⟩, fun n => String.ofList (Number.natText n)⟩
    let ofRule : Journal.Act :=
      .record (some "yes") (some 1) (.bool true) .emptyObject ⟨.bool true, []⟩
    let loose : Journal.Act := .record none none (.bool false) .emptyObject ⟨.bool false, []⟩
    let acts : List Journal.Act := [ofRule, .clear, ofRule, .readClock, loose]
    let store := (Journal.actAll src acts Journal.empty).2.store
    Function.Injective src.name ∧ store.size = 2 ∧ store.get? "0" = none ∧
      ∃ a, a.id = "1" ∧ store.get? a.id = some a ∧ store.ofRule "yes" = [a] := by
  intro src ofRule loose acts store
  have hnames : Function.Injective src.name := by
    intro m n h
    have htext : Number.natText m = Number.natText n := String.ofList_injective h
    rw [← Number.natOfDigits_natText m, htext, Number.natOfDigits_natText]
  obtain ⟨hsize, -, hget, hlist, -, hkept⟩ :=
    (store_shows_log (ι := Unit) hnames).1 acts
  have hlog : (Journal.log src acts Journal.empty).map (·.id) = ["1", "2"] := by decide +kernel
  refine ⟨hnames, ?_, ?_, ?_⟩
  · rw [hsize, ← List.length_map (·.id), hlog]
    rfl
  · refine Option.eq_none_iff_forall_ne_some.mpr fun a ha => ?_
    have hmem : "0" ∈ (Journal.log src acts Journal.empty).map (·.id) :=
      List.mem_map.mpr ⟨a, (hget "0" a).mp ha⟩
    rw [hlog] at hmem
    exact absurd hmem (by decide)
  · have hfound := hkept [ofRule, .clear] ofRule [.readClock, loose] _ rfl (by simp [loose]) rfl
    exact ⟨_, by decide +kernel, hfound, hlist "yes"⟩

end Session

end DecisionRules
