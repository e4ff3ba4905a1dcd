import DecisionRules.Proofs.Engine.Provenance

/-!
# Proofs/Catalog/Listing — the listing says what lookups say

The listing goes through the map of rules and reads off each version list on its own: the last
version, and the first one in force.  A lookup goes to one version list and does the same in another
order.  The two agree because no rule is listed without a version and no version in force is hidden
behind another one, and both follow from the counts that every reachable catalog agrees with
(`Tally.Counts`).

The map is kept in the order of the characters of its keys.  UTF-8 keeps that order, so the ids of a
listing grow as bytes too (`bytes_lt_of_lt`).
-/

namespace DecisionRules

/-! ## The order of bytes -/

/-- The bytes of a text in UTF-8. -/
def utf8Bytes (s : String) : List UInt8 := s.toUTF8.data.toList

theorem utf8Bytes_eq (s : String) : utf8Bytes s = s.toList.flatMap String.utf8EncodeChar := by
  have hbytes := String.toByteArray_ofList (l := s.toList)
  rw [String.ofList_toList] at hbytes
  rw [utf8Bytes, String.toUTF8, hbytes, List.utf8Encode, List.data_toByteArray]

/-- Two lists of bytes, given by their first numbers. -/
theorem ofNat_cons_lt_iff {m n : Nat} (hm : m < 256) (hn : n < 256) {xs ys : List UInt8} :
    UInt8.ofNat m :: xs < UInt8.ofNat n :: ys ↔ m < n ∨ m = n ∧ xs < ys := by
  rw [List.cons_lt_cons_iff, UInt8.lt_iff_toNat_lt, ← UInt8.toNat_inj,
    UInt8.toNat_ofNat_of_lt' hm, UInt8.toNat_ofNat_of_lt' hn]

/-- **A smaller character has smaller bytes**, whatever follows: the first byte tells how many there
are, and more of them mean a greater character. -/
theorem utf8EncodeChar_append_lt {c d : Char} (h : c < d) (xs ys : List UInt8) :
    String.utf8EncodeChar c ++ xs < String.utf8EncodeChar d ++ ys := by
  have hlt : c.val.toNat < d.val.toNat := h
  have hd : d.val.toNat < 0x110000 := by
    have hvalid := d.valid
    simp only [UInt32.isValidChar, Nat.isValidChar] at hvalid
    omega
  -- The bytes are the digits of the code point to base 64.
  have htwo (n : Nat) : n / 4096 = n / 64 / 64 := by omega
  have hthree (n : Nat) : n / 262144 = n / 64 / 64 / 64 := by omega
  unfold String.utf8EncodeChar
  generalize c.val.toNat = m at *
  generalize d.val.toNat = n at *
  simp only [htwo, hthree]
  split_ifs <;> simp (disch := omega) only [List.cons_append, List.nil_append, ofNat_cons_lt_iff]
  all_goals omega

theorem flatMap_utf8EncodeChar_lt : ∀ {cs ds : List Char}, cs < ds →
    cs.flatMap String.utf8EncodeChar < ds.flatMap String.utf8EncodeChar
  | [], d :: ds, _ => by
    rw [List.flatMap_nil, List.flatMap_cons]
    cases hbytes : String.utf8EncodeChar d with
    | nil => exact absurd hbytes String.utf8EncodeChar_ne_nil
    | cons b bs => exact List.nil_lt_cons b _
  | c :: cs, d :: ds, h => by
    rw [List.flatMap_cons, List.flatMap_cons]
    rcases List.cons_lt_cons_iff.mp h with hhead | ⟨rfl, htail⟩
    · exact utf8EncodeChar_append_lt hhead _ _
    · exact List.append_left_lt (flatMap_utf8EncodeChar_lt htail)

/-- **Texts are ordered as their bytes are.** -/
theorem utf8Bytes_lt_of_lt {s t : String} (h : s < t) : utf8Bytes s < utf8Bytes t := by
  rw [utf8Bytes_eq, utf8Bytes_eq]
  exact flatMap_utf8EncodeChar_lt (String.lt_iff.mp h)

/-! ## A summary and the lookups of its rule -/

/-- **What is listed of a rule is what lookups find.** -/
structure RuleSummary.Agrees (summary : RuleSummary) (c : Catalog) : Prop where
  /-- The latest version is shown. -/
  latest : ∃ v, c.get summary.stableId none true = .ok v ∧ summary.latestVersion = v.version ∧
    summary.name = v.name ∧ summary.description = v.description ∧ summary.labels = v.labels ∧
    summary.status = v.status
  /-- The number shown as that of the version in force is that of a version in force, and no other
  number is. -/
  published_iff : ∀ number, summary.publishedVersion = some number ↔
    ∃ v, c.get summary.stableId (some number) false = .ok v ∧ v.isPublished = true
  /-- If a version is shown as in force, it is the one that is picked without a choice. -/
  inForce : ∀ number, summary.publishedVersion = some number →
    ∃ v, c.get summary.stableId none false = .ok v ∧ v.version = number
  /-- Otherwise the latest is. -/
  otherwise : summary.publishedVersion = none →
    c.get summary.stableId none false = c.get summary.stableId none true

namespace Catalog

variable {c : Catalog} {id : String}

theorem summary?_eq_some {versions : List RuleVersion} {summary : RuleSummary}
    (h : summary? id versions = some summary) : ∃ latest, versions.getLast? = some latest ∧
      summary = ⟨id, latest.name, latest.description, latest.labels, latest.version,
        (publishedOf versions).map RuleVersion.version, latest.status⟩ := by
  obtain ⟨latest, hlatest, rfl⟩ := Option.map_eq_some_iff.mp h
  exact ⟨latest, hlatest, rfl⟩

/-- A listing has the summaries of the version lists in the map. -/
theorem mem_listing_iff {summary : RuleSummary} : summary ∈ c.listing.rules ↔
    ∃ id versions, c.rules.get? id = some versions ∧ summary? id versions = some summary := by
  constructor
  · intro h
    obtain ⟨⟨id, versions⟩, hentry, hsummary⟩ := List.mem_filterMap.mp h
    exact ⟨id, versions, KeyMap.mem_entries_iff.mp hentry, hsummary⟩
  · rintro ⟨id, versions, hget, hsummary⟩
    exact List.mem_filterMap.mpr ⟨(id, versions), KeyMap.mem_entries_iff.mpr hget, hsummary⟩

/-- **A rule is listed if and only if it has a version.** -/
theorem mem_ids_listing_iff : id ∈ c.listing.rules.map RuleSummary.stableId ↔
    c.history id ≠ [] := by
  constructor
  · rintro hid hnil
    obtain ⟨summary, hmem, rfl⟩ := List.mem_map.mp hid
    obtain ⟨id, versions, hget, hsummary⟩ := mem_listing_iff.mp hmem
    obtain ⟨latest, hlatest, rfl⟩ := summary?_eq_some hsummary
    rw [history, hget, Option.getD_some] at hnil
    rw [hnil] at hlatest
    cases hlatest
  · intro hne
    obtain ⟨latest, hlatest⟩ := Option.ne_none_iff_exists'.mp (mt List.getLast?_eq_none_iff.mp hne)
    have hget : c.rules.get? id = some (c.history id) := by
      rw [history] at hne ⊢
      rcases hrule : c.rules.get? id with _ | versions
      · exact absurd (by rw [hrule]; rfl) hne
      · rfl
    have hsummary : ∃ summary, summary? id (c.history id) = some summary ∧
        summary.stableId = id := by
      rw [summary?, hlatest]
      exact ⟨_, rfl, rfl⟩
    obtain ⟨summary, hsummary, hid⟩ := hsummary
    exact List.mem_map.mpr ⟨summary, mem_listing_iff.mpr ⟨id, _, hget, hsummary⟩, hid⟩

/-- **The ids of a listing grow strictly**, as bytes. -/
theorem pairwise_listing (c : Catalog) : c.listing.rules.Pairwise fun first second =>
    utf8Bytes first.stableId < utf8Bytes second.stableId := by
  refine List.Pairwise.filterMap _ ?_ c.rules.sorted
  rintro ⟨id, versions⟩ ⟨id', versions'⟩ hlt summary hsummary summary' hsummary'
  obtain ⟨latest, -, rfl⟩ := summary?_eq_some hsummary
  obtain ⟨latest', -, rfl⟩ := summary?_eq_some hsummary'
  exact utf8Bytes_lt_of_lt hlt

/-- A lookup that prefers the latest version finds it. -/
theorem get_latest {latest : RuleVersion} (h : (c.history id).getLast? = some latest)
    (hfilled : c.rules.get? id ≠ some []) : c.get id none true = .ok latest := by
  have hne : c.history id ≠ [] := by
    intro hnil
    rw [hnil] at h
    cases h
  have hselect : select (c.history id) none true = some latest := h
  rw [get_eq hfilled, if_neg hne, hselect]

/-- A lookup without a choice finds the version in force. -/
theorem get_published {v : RuleVersion} (h : publishedOf (c.history id) = some v)
    (hfilled : c.rules.get? id ≠ some []) : c.get id none false = .ok v := by
  have hmem : v ∈ c.history id := List.mem_of_find?_eq_some h
  have hselect : select (c.history id) none false = some v := by
    rw [select, h]
    rfl
  rw [get_eq hfilled, if_neg (List.ne_nil_of_mem hmem), hselect]

/-- If none is in force it finds what one that prefers the latest version does. -/
theorem get_unpublished (h : publishedOf (c.history id) = none)
    (hfilled : c.rules.get? id ≠ some []) : c.get id none false = c.get id none true := by
  have hselect : select (c.history id) none false = select (c.history id) none true := by
    rw [select, h]
    rfl
  rw [get_eq hfilled, get_eq hfilled, hselect]

/-- **A lookup without a number finds a version if and only if there is one.** -/
theorem exists_get_iff (hfilled : c.rules.get? id ≠ some []) :
    (∃ v, c.get id none false = .ok v) ↔ c.history id ≠ [] := by
  constructor
  · rintro ⟨v, hv⟩
    exact List.ne_nil_of_mem (mem_history_of_get hfilled hv)
  · intro hne
    obtain ⟨latest, hlatest⟩ := Option.ne_none_iff_exists'.mp (mt List.getLast?_eq_none_iff.mp hne)
    rcases hpublished : publishedOf (c.history id) with _ | v
    · rw [get_unpublished hpublished hfilled]
      exact ⟨latest, get_latest hlatest hfilled⟩
    · exact ⟨v, get_published hpublished hfilled⟩

/-- A lookup by number finds a version with that number. -/
theorem version_of_get {number : Nat} {preferLatest : Bool} {v : RuleVersion}
    (h : c.get id (some number) preferLatest = .ok v) (hfilled : c.rules.get? id ≠ some []) :
    v.version = number := by
  rw [get_eq hfilled] at h
  split at h
  · cases h
  · rcases hselect : select (c.history id) (some number) preferLatest with _ | found
    · rw [hselect] at h
      cases h
    · rw [hselect] at h
      obtain rfl := Except.ok.inj h
      simpa using List.find?_some hselect

end Catalog

/-- **The summary of a rule agrees with its lookups** in every catalog that agrees with a tally. -/
theorem Tally.Counts.summary_agrees {t : Tally} {c : Catalog} {id : String} (h : t.Counts c id)
    {versions : List RuleVersion} (hget : c.rules.get? id = some versions) {summary : RuleSummary}
    (hsummary : Catalog.summary? id versions = some summary) : summary.Agrees c := by
  obtain ⟨latest, hlatest, rfl⟩ := Catalog.summary?_eq_some hsummary
  obtain rfl : c.history id = versions := by rw [Catalog.history, hget, Option.getD_some]
  refine ⟨⟨latest, Catalog.get_latest hlatest h.filled, rfl, rfl, rfl, rfl, rfl⟩, fun number =>
    ⟨fun hnumber => ?_, ?_⟩, fun number hnumber => ?_, fun hnone => ?_⟩
  · obtain ⟨v, hv, rfl⟩ := Option.map_eq_some_iff.mp hnumber
    exact ⟨v, h.get_of_mem (List.mem_of_find?_eq_some hv) false, List.find?_some hv⟩
  · rintro ⟨v, hv, hpublished⟩
    have hmem : v.version ∈ publishedNumbers (c.history id) := List.mem_map_of_mem <|
      List.mem_filter.mpr ⟨Catalog.mem_history_of_get h.filled hv, hpublished⟩
    rw [h.published_eq, Option.mem_toList] at hmem
    rw [← Catalog.version_of_get hv h.filled, ← hmem]
    exact h.publishedOf
  · obtain ⟨v, hv, rfl⟩ := Option.map_eq_some_iff.mp hnumber
    exact ⟨v, Catalog.get_published hv h.filled, rfl⟩
  · exact Catalog.get_unpublished (Option.map_eq_none_iff.mp hnone) h.filled

namespace Session

variable {ι : Type} [DecidableEq ι]

/-- **The listing of a catalog agrees with its lookups**, after every run of a session.  Its total
is the number of its summaries; their ids grow strictly in the order of bytes, and are those of the
rules that a lookup finds; and each summary says of its rule what lookups say. -/
theorem listing_agrees_of_run (src : Sources) (requests : List (ι × Request)) (who : ι) :
    let c := (run src requests empty).2.catalogs who
    c.listing.total = c.listing.rules.length ∧
      (c.listing.rules.Pairwise fun first second =>
        utf8Bytes first.stableId < utf8Bytes second.stableId) ∧
      (∀ id, id ∈ c.listing.rules.map RuleSummary.stableId ↔ ∃ v, c.get id none false = .ok v) ∧
      ∀ summary ∈ c.listing.rules, summary.Agrees c := by
  intro c
  have hcounts (id : String) : ∃ t : Tally, t.Counts c id :=
    ⟨_, counts_run src who id requests empty (Tally.counts_empty id)⟩
  refine ⟨rfl, Catalog.pairwise_listing c, fun id => ?_, fun summary hmem => ?_⟩
  · obtain ⟨t, ht⟩ := hcounts id
    rw [Catalog.mem_ids_listing_iff, Catalog.exists_get_iff ht.filled]
  · obtain ⟨id, versions, hget, hsummary⟩ := Catalog.mem_listing_iff.mp hmem
    obtain ⟨t, ht⟩ := hcounts id
    exact ht.summary_agrees hget hsummary

/-- A rule with a revision that is not in force, and one that was created before it. -/
example :
    let draft (id : String) : RuleDraft :=
      ⟨id, "Rule", none, .bool true, KeyMap.empty, none, []⟩
    let src : Sources := ⟨fun n => ⟨n, 0⟩, fun n => toString n⟩
    let requests : List (Unit × Request) := [((), .create (draft "tax")),
      ((), .create (draft "fee")), ((), .publish "fee" 1 none), ((), .create (draft "fee"))]
    ((run src requests empty).2.catalogs ()).listing.rules.map
      (fun s => (s.stableId, s.latestVersion, s.publishedVersion)) =
        [("fee", 2, some 1), ("tax", 1, none)] := by
  decide +kernel

end Session

end DecisionRules
