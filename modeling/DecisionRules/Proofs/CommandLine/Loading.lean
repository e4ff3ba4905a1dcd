import DecisionRules.CommandLine.Run
import DecisionRules.Proofs.Catalog.Lifecycle
import DecisionRules.Proofs.Engine.Acceptance

/-!
# Proofs/CommandLine/Loading — what a catalog file becomes

A catalog file is loaded entry by entry: each becomes the next version of its rule, and is put in
force at once if it asks for that.  Entries of several rules may stand in any order, and several
entries of a rule may ask to be put in force.  Still the catalog follows from the entries of each
rule alone: the first becomes its first version and so on, and the last that asks for it is in force
(`CatalogEntry.Loaded`).  Nothing fails on the way if every entry is accepted
(`CommandLine.exists_loadEntries`).
-/

namespace DecisionRules

/-- What a version of a rule says, without its number, its status and its times. -/
def RuleVersion.draft (v : RuleVersion) : RuleDraft :=
  ⟨v.stableId, v.name, v.description, v.definition, v.labels, v.revisionNotes, v.regressionCases⟩

@[simp] theorem RuleVersion.draft_demote (v : RuleVersion) :
    (Catalog.demote v).draft = v.draft := by
  obtain ⟨_, _, h⟩ := Catalog.demote_eq_with v
  rw [h]
  rfl

namespace CatalogEntry

/-! ## What the file alone says -/

/-- The entries of a rule, in the order of the file. -/
def ofRule (id : String) (entries : List CatalogEntry) : List CatalogEntry :=
  entries.filter (·.draft.stableId == id)

/-- The position, from 1, of the last entry that asks to be put in force. -/
def lastPublished (own : List CatalogEntry) : Option Nat :=
  ((own.zipIdx 1).filter (·.1.publish)).getLast?.map Prod.snd

/-- The counts of a rule with these entries: one version for each, and the last one in force that
asks for it. -/
def tally (own : List CatalogEntry) : Tally := ⟨own.length, lastPublished own⟩

variable {id : String} {entries own : List CatalogEntry} {entry : CatalogEntry}

theorem mem_ofRule_iff :
    entry ∈ ofRule id entries ↔ entry ∈ entries ∧ entry.draft.stableId = id := by
  rw [ofRule, List.mem_filter, beq_iff_eq]

theorem ofRule_ne_nil_iff :
    ofRule id entries ≠ [] ↔ ∃ entry ∈ entries, entry.draft.stableId = id := by
  rw [ne_eq, List.eq_nil_iff_forall_not_mem, not_forall_not]
  exact exists_congr fun _ => mem_ofRule_iff

theorem ofRule_concat_self (entries : List CatalogEntry) (entry : CatalogEntry) :
    ofRule entry.draft.stableId (entries ++ [entry]) =
      ofRule entry.draft.stableId entries ++ [entry] := by
  have hown : List.filter (·.draft.stableId == entry.draft.stableId) [entry] = [entry] :=
    List.filter_cons_of_pos (beq_self_eq_true _)
  rw [ofRule, List.filter_append, hown, ofRule]

theorem ofRule_concat_of_ne (h : id ≠ entry.draft.stableId) (entries : List CatalogEntry) :
    ofRule id (entries ++ [entry]) = ofRule id entries := by
  have hother : List.filter (·.draft.stableId == id) [entry] = [] :=
    List.filter_cons_of_neg (by simpa using Ne.symm h)
  rw [ofRule, List.filter_append, hother, List.append_nil, ofRule]

/-- An entry that asks for it is the last one to, until another does. -/
theorem lastPublished_concat (own : List CatalogEntry) (entry : CatalogEntry) :
    lastPublished (own ++ [entry]) =
      if entry.publish then some (own.length + 1) else lastPublished own := by
  rw [lastPublished, List.zipIdx_append, List.filter_append, List.zipIdx_singleton,
    List.filter_singleton]
  by_cases hpublish : entry.publish = true
  · rw [if_pos hpublish, hpublish, cond_true, List.getLast?_concat, Option.map_some, Nat.add_comm]
  · rw [if_neg hpublish, Bool.eq_false_iff.mpr hpublish, cond_false, List.append_nil, lastPublished]

/-- It stands somewhere among the entries. -/
theorem lastPublished_bounds {number : Nat} (h : lastPublished own = some number) :
    1 ≤ number ∧ number ≤ own.length := by
  obtain ⟨⟨entry, position⟩, hlast, rfl⟩ := Option.map_eq_some_iff.mp h
  obtain ⟨hmem, -⟩ := List.mem_filter.mp (List.mem_of_getLast? hlast)
  obtain ⟨hlow, hhigh, -⟩ := List.mem_zipIdx hmem
  exact ⟨hlow, by omega⟩

/-! ## What has been loaded -/

/-- **A catalog holds the entries of a file**, each as the version that it is to become. -/
structure Loaded (entries : List CatalogEntry) (c : Catalog) : Prop where
  counts : ∀ id, (tally (ofRule id entries)).Counts c id
  drafts : ∀ id, (c.history id).map RuleVersion.draft = (ofRule id entries).map CatalogEntry.draft

theorem loaded_nil : Loaded [] Catalog.empty := ⟨Tally.counts_empty, fun _ => rfl⟩

variable {c c' : Catalog} {d : RuleDraft} {now : Timestamp}

/-- **A version that is appended is an entry that does not ask to be put in force.** -/
theorem Loaded.append (h : Loaded entries c) {made : RuleVersion}
    (happend : c.append d now = (made, c')) : made.stableId = d.stableId ∧
      made.version = (ofRule d.stableId entries).length + 1 ∧ Loaded (entries ++ [⟨d, false⟩]) c' := by
  rw [Catalog.append_eq] at happend
  obtain ⟨rfl, rfl⟩ := Prod.mk.inj happend
  refine ⟨rfl, Tally.nextNumber_eq (h.counts d.stableId).keys_eq, fun id => ?_, fun id => ?_⟩
  all_goals by_cases hid : id = d.stableId
  · subst hid
    have hcounts := (h.counts d.stableId).append now
    rw [ofRule_concat_self entries ⟨d, false⟩, tally, lastPublished_concat, List.length_append]
    exact hcounts
  · rw [ofRule_concat_of_ne hid]
    exact (h.counts id).of_ne hid _
  · subst hid
    rw [ofRule_concat_self entries ⟨d, false⟩, Catalog.history_withHistory_self, List.map_append,
      List.map_append, h.drafts]
    rfl
  · rw [ofRule_concat_of_ne hid, Catalog.history_withHistory_of_ne hid, h.drafts]

/-- **To put it in force then is what the entry would have asked for.** -/
theorem Loaded.publish {v : RuleVersion} (h : Loaded (entries ++ [⟨d, false⟩]) c)
    (hpublish : c.publish d.stableId ((ofRule d.stableId entries).length + 1) none now =
      .ok (v, c')) : Loaded (entries ++ [⟨d, true⟩]) c' := by
  obtain ⟨-, front, w, back, hsplit, -, -, -, hc'⟩ := Catalog.change_eq_ok hpublish
  refine ⟨fun id => ?_, fun id => ?_⟩
  all_goals by_cases hid : id = d.stableId
  · subst hid
    have hcounts := (h.counts d.stableId).publish hpublish
    rw [ofRule_concat_self entries ⟨d, false⟩, tally, List.length_append] at hcounts
    rw [ofRule_concat_self entries ⟨d, true⟩, tally, lastPublished_concat, List.length_append]
    exact hcounts
  · have hcounts := (h.counts id).of_change_ne hid hpublish
    rw [ofRule_concat_of_ne hid] at hcounts ⊢
    exact hcounts
  · subst hid
    have hdrafts := h.drafts d.stableId
    rw [ofRule_concat_self entries ⟨d, false⟩, List.map_append] at hdrafts
    rw [ofRule_concat_self entries ⟨d, true⟩, List.map_append, hc',
      Catalog.history_withHistory_self]
    refine (Catalog.map_of_change RuleVersion.draft_demote hsplit ?_).trans hdrafts
    rfl
  · have hdrafts := h.drafts id
    rw [ofRule_concat_of_ne hid] at hdrafts ⊢
    rw [hc', Catalog.history_withHistory_of_ne hid, hdrafts]

end CatalogEntry

/-- **A version that is there can be put in force.** -/
theorem Tally.Counts.exists_publish {t : Tally} {c : Catalog} {id : String} (h : t.Counts c id)
    {number : Nat} (hlow : 1 ≤ number) (hhigh : number ≤ t.made) (notes : Option String)
    (now : Timestamp) : ∃ v c', c.publish id number notes now = .ok (v, c') := by
  have htally : t.get id (some number) false = .ok (id, number) := by
    unfold Tally.get
    rw [if_neg (Nat.pos_iff_ne_zero.mp (hlow.trans hhigh))]
    exact if_pos ⟨hlow, hhigh⟩
  have hnumber (v : RuleVersion) : (Catalog.demote v).version = v.version :=
    congrArg Prod.snd (Tally.key_demote v)
  have hget := (h.get (some number) false).trans htally
  rcases hfound : c.get id (some number) false with err | w
  · rw [hfound] at hget
    cases hget
  · exact Catalog.exists_change_of_get hfound hnumber (Catalog.promote notes now)

/-- **The version that an entry became can be put in force.** -/
theorem CatalogEntry.Loaded.exists_publish {entries : List CatalogEntry} {c : Catalog}
    {d : RuleDraft} (h : Loaded (entries ++ [⟨d, false⟩]) c) (now : Timestamp) : ∃ v c',
      c.publish d.stableId ((ofRule d.stableId entries).length + 1) none now = .ok (v, c') := by
  refine (h.counts d.stableId).exists_publish (Nat.succ_pos _) ?_ none now
  rw [ofRule_concat_self entries ⟨d, false⟩, tally, List.length_append]
  exact Nat.le_refl _

/-! ## Loading -/

namespace Engine

variable {src : Sources} {e : Engine} {c : Catalog} {v : RuleVersion}

/-- A draft that is accepted becomes the next version. -/
theorem create_of_append {d : RuleDraft} (hcheck : d.check = .ok ())
    (hvalid : validate d.definition = .ok ())
    (h : e.catalog.append d (src.time e.journal.readings) = (v, c)) :
    e.create src d = (.ok v, ⟨c, (e.journal.readClock src).2⟩) := by
  rw [create, hcheck, hvalid]
  dsimp only
  rw [createUnvalidated_of_check src hcheck, h]

/-- A version that can be put in force is put in force. -/
theorem publish_of_publish {id : String} {number : Nat} {notes : Option String}
    (h : e.catalog.publish id number notes (src.time e.journal.readings) = .ok (v, c)) :
    e.publish src id number notes = (.ok v, ⟨c, (e.journal.readClock src).2⟩) := by
  rw [publish_eq, h]
  rfl

end Engine

namespace CommandLine

open CatalogEntry

variable {entries : List CatalogEntry} {entry : CatalogEntry}

/-- **An entry that is accepted is loaded**: it becomes the next version, and is put in force if it
asks for that. -/
theorem loadEntries_cons (src : Sources) {e : Engine} (h : Loaded entries e.catalog)
    (hcheck : entry.draft.check = .ok ()) (hvalid : validate entry.draft.definition = .ok ())
    (rest : List CatalogEntry) : ∃ e', loadEntries src (entry :: rest) e = loadEntries src rest e' ∧
      Loaded (entries ++ [entry]) e'.catalog := by
  obtain ⟨d, publish⟩ := entry
  obtain ⟨⟨made, c⟩, happend⟩ : ∃ made, e.catalog.append d (src.time e.journal.readings) = made :=
    ⟨_, rfl⟩
  obtain ⟨hid, hnumber, hloaded⟩ := h.append happend
  rw [loadEntries, Engine.create_of_append hcheck hvalid happend]
  by_cases hpublish : publish = true
  · obtain ⟨v, c', hv⟩ := hloaded.exists_publish (src.time (e.journal.readClock src).2.readings)
    have hset : Engine.publish src made.stableId made.version none
        ⟨c, (e.journal.readClock src).2⟩ =
          (.ok v, ⟨c', ((e.journal.readClock src).2.readClock src).2⟩) := by
      rw [hid, hnumber]
      exact Engine.publish_of_publish hv
    subst hpublish
    refine ⟨⟨c', ((e.journal.readClock src).2.readClock src).2⟩, ?_, hloaded.publish hv⟩
    simp only [if_true, hset]
  · rw [Bool.not_eq_true] at hpublish
    subst hpublish
    exact ⟨_, rfl, hloaded⟩

/-- **A file is loaded if its entries are accepted**, and the catalog then holds its entries. -/
theorem exists_loadEntries (src : Sources) (front : List CatalogEntry) {e : Engine}
    (h : Loaded front e.catalog) (haccepted : ∀ entry ∈ entries,
      entry.draft.check = .ok () ∧ validate entry.draft.definition = .ok ()) :
    ∃ engine, loadEntries src entries e = .ok engine ∧
      Loaded (front ++ entries) engine.catalog := by
  induction entries generalizing front e with
  | nil => exact ⟨e, rfl, (List.append_nil front).symm ▸ h⟩
  | cons entry rest ih =>
    obtain ⟨⟨hcheck, hvalid⟩, hrest⟩ := List.forall_mem_cons.mp haccepted
    obtain ⟨e', hload, hloaded⟩ := loadEntries_cons src h hcheck hvalid rest
    obtain ⟨engine, hengine, hall⟩ := ih (front ++ [entry]) hloaded hrest
    rw [List.append_assoc, List.singleton_append] at hall
    exact ⟨engine, hload.trans hengine, hall⟩

end CommandLine

end DecisionRules
