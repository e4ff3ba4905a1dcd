/-!
# KeyMap — maps from texts, sorted by key

A `KeyMap α` holds at most one value for each key, in the order of the keys, which for texts is the
order of their characters and so also of their bytes. The order is part of the type: two maps with
the same values are equal, and listing one needs no sorting.

The list functions come first; they are also what sorts the keys of a document.
-/

namespace DecisionRules

namespace KeyMap

variable {α : Type}

/-! ## Sorted lists of entries -/

/-- Puts an entry into a list sorted by key, replacing the value of an equal key. -/
def insertEntry (key : String) (value : α) : List (String × α) → List (String × α)
  | [] => [(key, value)]
  | (k, v) :: rest =>
    if key < k then (key, value) :: (k, v) :: rest
    else if key = k then (key, value) :: rest
    else (k, v) :: insertEntry key value rest

/-- The entries sorted by key, the last of equal keys staying. -/
def sortEntries (entries : List (String × α)) : List (String × α) :=
  entries.foldl (fun sorted (k, v) => insertEntry k v sorted) []

/-- The keys of a list of entries grow strictly. -/
def Sorted (entries : List (String × α)) : Prop := entries.Pairwise (fun x y => x.1 < y.1)

theorem lt_of_not_lt {a b : String} (h : ¬ a < b) (hne : a ≠ b) : b < a := by
  have := String.not_lt.mp h
  exact Classical.byContradiction fun hba =>
    hne (String.le_antisymm (String.not_lt.mp hba) this)

/-- The keys after an insertion are the old ones and the new one. -/
theorem mem_insertEntry {key : String} {value : α} {entry : String × α} :
    ∀ {entries : List (String × α)}, entry ∈ insertEntry key value entries →
      entry = (key, value) ∨ entry ∈ entries
  | [], h => by simpa [insertEntry] using h
  | (k, v) :: rest, h => by
    simp only [insertEntry] at h
    split at h
    · simpa using h
    · split at h
      · rcases List.mem_cons.mp h with h | h
        · exact .inl h
        · exact .inr (List.mem_cons_of_mem _ h)
      · rcases List.mem_cons.mp h with h | h
        · exact .inr (h ▸ List.mem_cons_self)
        · exact (mem_insertEntry h).imp_right (List.mem_cons_of_mem _)

theorem sorted_insertEntry {key : String} {value : α} :
    ∀ {entries : List (String × α)}, Sorted entries → Sorted (insertEntry key value entries)
  | [], _ => List.pairwise_singleton ..
  | (k, v) :: rest, h => by
    have hrest : ∀ y ∈ rest, k < y.1 := (List.pairwise_cons.mp h).1
    have htail : Sorted rest := (List.pairwise_cons.mp h).2
    simp only [insertEntry]
    split
    case isTrue hlt =>
      refine List.pairwise_cons.mpr ⟨fun y hy => ?_, h⟩
      rcases List.mem_cons.mp hy with rfl | hy
      · exact hlt
      · exact String.lt_trans hlt (hrest y hy)
    case isFalse hlt =>
      split
      case isTrue heq => exact List.pairwise_cons.mpr ⟨heq ▸ hrest, htail⟩
      case isFalse hne =>
        refine List.pairwise_cons.mpr ⟨fun y hy => ?_, sorted_insertEntry htail⟩
        rcases mem_insertEntry hy with rfl | hy
        · exact lt_of_not_lt hlt hne
        · exact hrest y hy

end KeyMap

/-- A map from texts to values, in the order of the texts. -/
structure KeyMap (α : Type) where
  /-- The keys with their values. -/
  entries : List (String × α)
  /-- The keys grow strictly. -/
  sorted : KeyMap.Sorted entries

namespace KeyMap

variable {α : Type}

/-- The map without keys. -/
def empty : KeyMap α := ⟨[], List.Pairwise.nil⟩

instance : Inhabited (KeyMap α) := ⟨empty⟩

/-- The value of a key. -/
def get? (m : KeyMap α) (key : String) : Option α := m.entries.lookup key

/-- Gives a key a value, in place of the one it had. -/
def insert (m : KeyMap α) (key : String) (value : α) : KeyMap α :=
  ⟨insertEntry key value m.entries, sorted_insertEntry m.sorted⟩

/-! ## Looking up after an insertion -/

@[simp] theorem get?_empty (key : String) : (empty : KeyMap α).get? key = none := rfl

theorem lookup_cons (other k : String) (v : α) (rest : List (String × α)) :
    ((k, v) :: rest).lookup other = if other = k then some v else rest.lookup other := by
  by_cases h : other = k
  · rw [List.lookup_cons, h, beq_self_eq_true, if_pos rfl]
  · rw [List.lookup_cons, beq_false_of_ne h, if_neg h]

theorem lookup_insertEntry (key : String) (value : α) (other : String) :
    ∀ entries : List (String × α), (insertEntry key value entries).lookup other =
      if other = key then some value else entries.lookup other
  | [] => lookup_cons ..
  | (k, v) :: rest => by
    rw [insertEntry]
    by_cases hlt : key < k
    · rw [if_pos hlt, lookup_cons]
    rw [if_neg hlt]
    by_cases hk : key = k
    · rw [if_pos hk, lookup_cons, lookup_cons, ← hk]
      by_cases h : other = key
      · rw [if_pos h, if_pos h]
      · rw [if_neg h, if_neg h, if_neg h]
    · rw [if_neg hk, lookup_cons, lookup_cons, lookup_insertEntry key value other rest]
      by_cases h : other = key
      · rw [if_pos h, if_pos h, if_neg (h ▸ hk)]
      · rw [if_neg h, if_neg h]

/-- **An insertion changes what one key leads to.** -/
theorem get?_insert (m : KeyMap α) (key : String) (value : α) (other : String) :
    (m.insert key value).get? other = if other = key then some value else m.get? other :=
  lookup_insertEntry key value other m.entries

/-! ## Entries and look-up -/

theorem mem_of_lookup {key : String} {value : α} {entries : List (String × α)}
    (h : entries.lookup key = some value) : (key, value) ∈ entries := by
  obtain ⟨front, back, rfl, -⟩ := List.lookup_eq_some_iff.mp h
  exact List.mem_append_right _ List.mem_cons_self

/-- Without repeated keys every entry is the one that look-up finds. -/
theorem lookup_of_mem {key : String} {value : α} : ∀ {entries : List (String × α)},
    (entries.map Prod.fst).Nodup → (key, value) ∈ entries → entries.lookup key = some value
  | (k, v) :: rest, hnodup, hmem => by
    rw [List.map_cons, List.nodup_cons] at hnodup
    rw [lookup_cons]
    rcases List.mem_cons.mp hmem with hhead | htail
    · obtain ⟨rfl, rfl⟩ := Prod.mk.inj hhead
      rw [if_pos rfl]
    · have hne : key ≠ k := by
        rintro rfl
        exact hnodup.1 (List.mem_map.mpr ⟨_, htail, rfl⟩)
      rw [if_neg hne, lookup_of_mem hnodup.2 htail]

/-- Keys that grow do not repeat. -/
theorem Sorted.nodup {entries : List (String × α)} (h : Sorted entries) :
    (entries.map Prod.fst).Nodup :=
  List.pairwise_map.mpr (h.imp fun {x y} hlt (heq : x.1 = y.1) =>
    String.lt_irrefl y.1 (heq ▸ hlt))

/-- **The entries of a map are what look-up finds.** -/
theorem mem_entries_iff {m : KeyMap α} {key : String} {value : α} :
    (key, value) ∈ m.entries ↔ m.get? key = some value :=
  ⟨lookup_of_mem m.sorted.nodup, mem_of_lookup⟩

/-! ## Inserting twice -/

theorem insertEntry_insertEntry (key : String) (value earlier : α) :
    ∀ entries : List (String × α),
      insertEntry key value (insertEntry key earlier entries) = insertEntry key value entries
  | [] => by simp [insertEntry]
  | (k, v) :: rest => by
    by_cases hlt : key < k
    · simp [insertEntry, hlt]
    · by_cases hk : key = k
      · simp [insertEntry, hk]
      · simp [insertEntry, hlt, hk, insertEntry_insertEntry key value earlier rest]

/-- **Of two insertions under one key the later counts.** -/
@[simp] theorem insert_insert (m : KeyMap α) (key : String) (value earlier : α) :
    (m.insert key earlier).insert key value = m.insert key value := by
  simp only [insert, insertEntry_insertEntry]

/-! ## Many entries -/

/-- **Of equal keys the last counts** when entries are put in one after the other, wherever each of
them goes. -/
theorem lookup_foldl {put : String → α → List (String × α) → List (String × α)}
    (hput : ∀ k v other entries, (put k v entries).lookup other =
      if other = k then some v else entries.lookup other) (key : String) :
    ∀ rest before : List (String × α),
      (rest.foldl (fun entries entry => put entry.1 entry.2 entries) before).lookup key =
        (rest.reverse.lookup key).or (before.lookup key)
  | [], _ => rfl
  | (k, v) :: rest, before => by
    rw [List.foldl_cons, lookup_foldl hput key rest, hput, List.reverse_cons, List.lookup_append,
      lookup_cons, List.lookup_nil, Option.or_assoc]
    congr 1
    by_cases hkey : key = k
    · rw [if_pos hkey, if_pos hkey]
      rfl
    · rw [if_neg hkey, if_neg hkey]
      rfl

theorem lookup_sortEntries (entries : List (String × α)) (key : String) :
    (sortEntries entries).lookup key = entries.reverse.lookup key :=
  (lookup_foldl lookup_insertEntry key entries []).trans Option.or_none

theorem sorted_foldl_insertEntry : ∀ (rest : List (String × α)) {before}, Sorted before →
    Sorted (rest.foldl (fun entries entry => insertEntry entry.1 entry.2 entries) before)
  | [], _, h => h
  | (_, _) :: rest, _, h => sorted_foldl_insertEntry rest (sorted_insertEntry h)

theorem sorted_sortEntries (entries : List (String × α)) : Sorted (sortEntries entries) :=
  sorted_foldl_insertEntry entries List.Pairwise.nil

/-- Look-up when every value is replaced by what it is made into. -/
theorem lookup_map {β : Type} (f : α → β) (key : String) : ∀ entries : List (String × α),
    (entries.map fun entry => (entry.1, f entry.2)).lookup key = (entries.lookup key).map f
  | [] => rfl
  | (k, v) :: rest => by
    rw [List.map_cons, lookup_cons, lookup_cons, lookup_map f key rest]
    split <;> rfl

/-- The map with these entries, the last of equal keys staying. -/
def ofList (entries : List (String × α)) : KeyMap α :=
  entries.foldl (fun m (k, v) => m.insert k v) empty

end KeyMap

end DecisionRules
