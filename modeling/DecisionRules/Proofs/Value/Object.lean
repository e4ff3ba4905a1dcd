import DecisionRules.Value.Basic
import Mathlib.Data.List.Nodup
import Mathlib.Data.List.Perm.Subperm

/-!
# Proofs/Value/Object — an object is what its keys lead to

The entries of an object are a list, but everything that is done with one looks keys up.  An
insertion changes what one key leads to (`Value.lookup_insert`), merging keeps the last entry of
each key (`Value.lookup_ofEntries`), and two objects that repeat no key are equal just when look-up
finds equal values under the same keys (`Value.beq_object_iff`).
-/

namespace DecisionRules

/-! ## What two look-ups find -/

section Found

variable {α β γ δ : Type} {R : α → β → Prop} {a : Option α} {b : Option β}

theorem isSome_eq_of_rel (h : Option.Rel R a b) : a.isSome = b.isSome := by
  cases h <;> rfl

theorem exists_of_rel_some {x : α} (h : Option.Rel R (some x) b) : ∃ y, b = some y ∧ R x y := by
  cases h with
  | some hxy => exact ⟨_, rfl, hxy⟩

theorem map_eq_map_of_rel {f : α → γ} {g : β → γ} (hrel : Option.Rel R a b)
    (h : ∀ x y, a = some x → b = some y → R x y → f x = g y) : a.map f = b.map g := by
  cases hrel with
  | some hxy => exact congrArg some (h _ _ rfl rfl hxy)
  | none => rfl

theorem rel_of_rel_map {S : γ → δ → Prop} {f : α → γ} {g : β → δ}
    (hrel : Option.Rel S (a.map f) (b.map g))
    (h : ∀ x y, a = some x → b = some y → S (f x) (g y) → R x y) : Option.Rel R a b := by
  rcases a with _ | x
  · rcases b with _ | y
    · exact .none
    · cases hrel
  · rcases b with _ | y
    · cases hrel
    · exact .some (h x y rfl rfl (Option.rel_some_some.mp hrel))

end Found

namespace KeyMap

variable {α β : Type} {xs : List (String × α)} {ys : List (String × β)}

theorem mem_keys_iff {key : String} :
    key ∈ xs.map Prod.fst ↔ (xs.lookup key).isSome = true := by
  rw [List.lookup_isSome_iff, List.mem_map]
  exact exists_congr fun _ => and_congr_right fun _ => by rw [beq_iff_eq, eq_comm]

/-- Two lists of entries that repeat no key have the same keys as soon as look-up says so. -/
theorem perm_keys (hxs : (xs.map Prod.fst).Nodup) (hys : (ys.map Prod.fst).Nodup)
    (h : ∀ key, (xs.lookup key).isSome = (ys.lookup key).isSome) :
    (xs.map Prod.fst).Perm (ys.map Prod.fst) :=
  (List.perm_ext_iff_of_nodup hxs hys).mpr fun key => by rw [mem_keys_iff, mem_keys_iff, h key]

end KeyMap

namespace Value

/-! ## Insertion -/

/-- What a key leads to after an insertion. -/
theorem lookup_insert (key : String) (value : Value) (other : String) :
    ∀ entries : List (String × Value), (insert key value entries).lookup other =
      if other = key then some value else entries.lookup other
  | [] => KeyMap.lookup_cons ..
  | (k, v) :: rest => by
    rw [insert]
    by_cases hk : k = key
    · rw [if_pos hk, KeyMap.lookup_cons, KeyMap.lookup_cons, hk]
      split <;> rfl
    · rw [if_neg hk, KeyMap.lookup_cons, KeyMap.lookup_cons, lookup_insert key value other rest]
      by_cases hother : other = key
      · rw [if_pos hother, if_pos hother, if_neg (hother ▸ Ne.symm hk)]
      · rw [if_neg hother, if_neg hother]

theorem insert_of_not_mem {key : String} {value : Value} : ∀ {entries : List (String × Value)},
    key ∉ entries.map Prod.fst → insert key value entries = entries ++ [(key, value)]
  | [], _ => rfl
  | (k, v) :: rest, h => by
    rw [List.map_cons, List.mem_cons, not_or] at h
    rw [insert, if_neg (Ne.symm h.1), insert_of_not_mem h.2, List.cons_append]

theorem keys_insert_of_mem {key : String} {value : Value} : ∀ {entries : List (String × Value)},
    key ∈ entries.map Prod.fst → (insert key value entries).map Prod.fst = entries.map Prod.fst
  | (k, v) :: rest, h => by
    rw [insert]
    by_cases hk : k = key
    · rw [if_pos hk, List.map_cons, List.map_cons, hk]
    · have hrest : key ∈ rest.map Prod.fst := (List.mem_cons.mp h).resolve_left (Ne.symm hk)
      rw [if_neg hk, List.map_cons, List.map_cons, keys_insert_of_mem hrest]

/-- **Of two insertions under one key the later counts**, where the earlier put it. -/
theorem insert_insert (key : String) (value earlier : Value) :
    ∀ entries : List (String × Value),
      insert key value (insert key earlier entries) = insert key value entries
  | [] => by simp only [insert, if_true]
  | (k, v) :: rest => by
    by_cases hk : k = key
    · rw [insert, insert, if_pos hk, if_pos hk, insert, if_pos rfl]
    · rw [insert, insert, if_neg hk, if_neg hk, insert, if_neg hk,
        insert_insert key value earlier rest]

/-- A key that is there is given its value in place, before another insertion or after it. -/
theorem insert_comm_of_mem {key other : String} (hne : key ≠ other) (value added : Value) :
    ∀ {entries : List (String × Value)}, key ∈ entries.map Prod.fst →
      insert key value (insert other added entries) = insert other added (insert key value entries)
  | (k, v) :: rest, h => by
    by_cases hk : k = key
    · have hkother : k ≠ other := hk ▸ hne
      rw [insert, insert, if_pos hk, if_neg hkother, insert, insert, if_pos hk, if_neg hne]
    · have hrest : key ∈ rest.map Prod.fst := (List.mem_cons.mp h).resolve_left (Ne.symm hk)
      by_cases hother : k = other
      · rw [insert, insert, if_neg hk, if_pos hother, insert, insert, if_pos hother,
          if_neg (hother ▸ hk)]
      · rw [insert, insert, if_neg hk, if_neg hother, insert, insert, if_neg hk, if_neg hother,
          insert_comm_of_mem hne value added hrest]

/-- **An insertion repeats no key.** -/
theorem nodup_insert {key : String} {value : Value} {entries : List (String × Value)}
    (h : (entries.map Prod.fst).Nodup) : ((insert key value entries).map Prod.fst).Nodup := by
  by_cases hkey : key ∈ entries.map Prod.fst
  · rw [keys_insert_of_mem hkey]
    exact h
  · rw [insert_of_not_mem hkey, List.map_append, List.nodup_append]
    refine ⟨h, List.nodup_singleton key, fun k hk other hother heq => ?_⟩
    rw [List.map_singleton, List.mem_singleton] at hother
    rw [heq, hother] at hk
    exact hkey hk

/-! ## Merging -/

theorem foldl_insert_of_nodup : ∀ {rest before : List (String × Value)},
    ((before ++ rest).map Prod.fst).Nodup →
    rest.foldl (fun merged entry => insert entry.1 entry.2 merged) before = before ++ rest
  | [], before, _ => (List.append_nil before).symm
  | (k, v) :: rest, before, h => by
    have hnew : k ∉ before.map Prod.fst := by
      rw [List.map_append, List.nodup_append] at h
      intro hmem
      exact h.2.2 k hmem k List.mem_cons_self rfl
    rw [List.foldl_cons, insert_of_not_mem hnew, foldl_insert_of_nodup (by simpa using h),
      List.append_assoc, List.singleton_append]

/-- **Without repeated keys there is nothing to merge.** -/
theorem ofEntries_of_nodup {entries : List (String × Value)} (h : (entries.map Prod.fst).Nodup) :
    ofEntries entries = entries := by
  have hmerged : ((([] : List (String × Value)) ++ entries).map Prod.fst).Nodup := h
  exact foldl_insert_of_nodup hmerged

theorem nodup_foldl_insert : ∀ (rest : List (String × Value)) {before : List (String × Value)},
    (before.map Prod.fst).Nodup →
    ((rest.foldl (fun merged entry => insert entry.1 entry.2 merged) before).map Prod.fst).Nodup
  | [], _, h => h
  | (_, _) :: rest, _, h => nodup_foldl_insert rest (nodup_insert h)

/-- **Merged entries repeat no key.** -/
theorem nodup_ofEntries (entries : List (String × Value)) :
    ((ofEntries entries).map Prod.fst).Nodup :=
  nodup_foldl_insert entries List.nodup_nil

/-- **Of equal keys the last counts.** -/
theorem lookup_ofEntries (entries : List (String × Value)) (key : String) :
    (ofEntries entries).lookup key = entries.reverse.lookup key :=
  (KeyMap.lookup_foldl lookup_insert key entries []).trans Option.or_none

/-! ## Equality -/

theorem matchesEntries_iff {xs ys : List (String × Value)} : matchesEntries xs ys = true ↔
    ∀ entry ∈ xs, ∃ w, ys.lookup entry.1 = some w ∧ entry.2.beq w = true := by
  induction xs with
  | nil => simp [matchesEntries]
  | cons entry rest ih =>
    obtain ⟨k, v⟩ := entry
    rw [matchesEntries, Bool.and_eq_true, ih, List.forall_mem_cons]
    refine and_congr_left' ?_
    rcases ys.lookup k with _ | w
    · simp
    · simp

/-- **Objects are equal if look-up finds equal values under the same keys.** -/
theorem beq_object_iff {xs ys : List (String × Value)} (hxs : (xs.map Prod.fst).Nodup)
    (hys : (ys.map Prod.fst).Nodup) : (Value.object xs).beq (.object ys) = true ↔
      ∀ key, Option.Rel (fun v w => v.beq w = true) (xs.lookup key) (ys.lookup key) := by
  rw [beq, Bool.and_eq_true, beq_iff_eq, matchesEntries_iff]
  constructor
  · rintro ⟨hlength, hmatch⟩ key
    -- The keys on the left are on the right, and there are no more of those.
    have hsubset : xs.map Prod.fst ⊆ ys.map Prod.fst := fun k hk => by
      obtain ⟨entry, hentry, rfl⟩ := List.mem_map.mp hk
      obtain ⟨w, hw, -⟩ := hmatch entry hentry
      exact KeyMap.mem_keys_iff.mpr (by rw [hw]; rfl)
    have hperm : (xs.map Prod.fst).Perm (ys.map Prod.fst) :=
      (List.subperm_of_subset hxs hsubset).perm_of_length_le (by simp [hlength])
    rcases hv : xs.lookup key with _ | v
    · have hkey : key ∉ ys.map Prod.fst := by
        rw [← hperm.mem_iff, KeyMap.mem_keys_iff, hv]
        exact Bool.false_ne_true
      rcases hw : ys.lookup key with _ | w
      · exact .none
      · exact absurd (KeyMap.mem_keys_iff.mpr (by rw [hw]; rfl)) hkey
    · obtain ⟨w, hw, hbeq⟩ := hmatch (key, v) (KeyMap.mem_of_lookup hv)
      rw [hw]
      exact .some hbeq
  · intro h
    have hsome : ∀ key, (xs.lookup key).isSome = (ys.lookup key).isSome := fun key =>
      isSome_eq_of_rel (h key)
    refine ⟨by simpa using (KeyMap.perm_keys hxs hys hsome).length_eq, ?_⟩
    rintro ⟨k, v⟩ hmem
    have hv : xs.lookup k = some v := KeyMap.lookup_of_mem hxs hmem
    have hrel := h k
    rw [hv] at hrel
    exact exists_of_rel_some hrel

end Value

end DecisionRules
