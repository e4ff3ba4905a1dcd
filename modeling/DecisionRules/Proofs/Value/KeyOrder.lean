import DecisionRules.Proofs.Value.Object
import DecisionRules.Proofs.Value.Related

/-!
# Proofs/Value/KeyOrder — values that differ only in the order of their keys

Two values differ only in the order of keys, at any depth, if they are the same once every object is
sorted (`Value.sortKeys`).  Taken apart, such values (`Value.Alike`) are the same scalar, or arrays
of alike items, or objects whose keys lead to alike values (`Value.Alike.split`).

So nothing that looks keys up can tell them apart: paths lead to alike values (`Alike.resolve`), and
equality holds of the one just when it holds of the other (`Alike.beq_eq`).  Only a text does, and
that only if some object in it has two keys (`Alike.eq_of_hasOrder_eq_false`).
-/

namespace DecisionRules

/-! ## Sorted entries -/

namespace KeyMap

variable {α : Type} {xs ys : List (String × α)}

theorem lookup_eq_some_iff (h : (xs.map Prod.fst).Nodup) {key : String} {value : α} :
    xs.lookup key = some value ↔ (key, value) ∈ xs :=
  ⟨mem_of_lookup, lookup_of_mem h⟩

theorem lookup_reverse (h : (xs.map Prod.fst).Nodup) (key : String) :
    xs.reverse.lookup key = xs.lookup key := by
  have hreverse : (xs.reverse.map Prod.fst).Nodup := by
    rw [List.map_reverse, List.nodup_reverse]
    exact h
  refine Option.ext fun value => ?_
  rw [lookup_eq_some_iff h, lookup_eq_some_iff hreverse, List.mem_reverse]

/-- In sorted entries a key leads to what its value was made into. -/
theorem lookup_sortEntries_map {β : Type} (f : α → β) (h : (xs.map Prod.fst).Nodup)
    (key : String) :
    (sortEntries (xs.map fun entry => (entry.1, f entry.2))).lookup key =
      (xs.lookup key).map f := by
  have hkeys : ((xs.map fun entry => (entry.1, f entry.2)).map Prod.fst).Nodup := by
    rw [List.map_map]
    exact h
  rw [lookup_sortEntries, lookup_reverse hkeys, lookup_map]

/-- **Sorted entries are what look-up finds in them.** -/
theorem Sorted.ext (hxs : Sorted xs) (hys : Sorted ys)
    (h : ∀ key, xs.lookup key = ys.lookup key) : xs = ys := by
  have hperm : xs.Perm ys := by
    refine (List.perm_ext_iff_of_nodup (List.Nodup.of_map _ hxs.nodup)
      (List.Nodup.of_map _ hys.nodup)).mpr ?_
    rintro ⟨key, value⟩
    rw [← lookup_eq_some_iff hxs.nodup, ← lookup_eq_some_iff hys.nodup, h key]
  exact hperm.eq_of_pairwise
    (fun _ _ _ _ hlt hgt => absurd (String.lt_trans hlt hgt) (String.lt_irrefl _)) hxs hys

end KeyMap

namespace Value

mutual

/-- The value with the keys of every object in order. -/
def sortKeys : Value → Value
  | .array items => .array (sortKeysOfItems items)
  | .object entries => .object (KeyMap.sortEntries (sortKeysOfEntries entries))
  | v => v
  termination_by structural v => v

/-- `sortKeys` on every item. -/
def sortKeysOfItems : List Value → List Value
  | [] => []
  | v :: rest => v.sortKeys :: sortKeysOfItems rest
  termination_by structural items => items

/-- `sortKeys` on the value of every entry. -/
def sortKeysOfEntries : List (String × Value) → List (String × Value)
  | [] => []
  | (k, v) :: rest => (k, v.sortKeys) :: sortKeysOfEntries rest
  termination_by structural entries => entries

end

theorem sortKeysOfItems_eq_map (items : List Value) :
    sortKeysOfItems items = items.map sortKeys := by
  induction items with
  | nil => rfl
  | cons v rest ih => exact congrArg (v.sortKeys :: ·) ih

theorem sortKeysOfEntries_eq_map (entries : List (String × Value)) :
    sortKeysOfEntries entries = entries.map fun entry => (entry.1, entry.2.sortKeys) := by
  induction entries with
  | nil => rfl
  | cons entry rest ih => exact congrArg ((entry.1, entry.2.sortKeys) :: ·) ih

theorem wellFormedItems_iff {items : List Value} :
    WellFormedItems items ↔ ∀ v ∈ items, v.WellFormed := by
  induction items with
  | nil => simp [WellFormedItems]
  | cons v rest ih => rw [WellFormedItems, ih, List.forall_mem_cons]

theorem wellFormedEntries_iff {entries : List (String × Value)} :
    WellFormedEntries entries ↔ ∀ entry ∈ entries, entry.2.WellFormed := by
  induction entries with
  | nil => simp [WellFormedEntries]
  | cons entry rest ih => rw [WellFormedEntries, ih, List.forall_mem_cons]

/-- The entries of a sorted object. -/
def sortedEntries (entries : List (String × Value)) : List (String × Value) :=
  KeyMap.sortEntries (sortKeysOfEntries entries)

theorem sorted_sortedEntries (entries : List (String × Value)) :
    KeyMap.Sorted (sortedEntries entries) := KeyMap.sorted_sortEntries _

/-- **Sorting keeps what keys lead to.** -/
theorem lookup_sortedEntries {entries : List (String × Value)}
    (h : (entries.map Prod.fst).Nodup) (key : String) :
    (sortedEntries entries).lookup key = (entries.lookup key).map sortKeys := by
  rw [sortedEntries, sortKeysOfEntries_eq_map, KeyMap.lookup_sortEntries_map sortKeys h]

/-! ## Equality -/

mutual

/-- **Sorting the keys does not change what is equal.** -/
theorem beq_sortKeys : ∀ {v w : Value}, v.WellFormed → w.WellFormed →
    v.sortKeys.beq w.sortKeys = v.beq w
  | .array xs, w, hv, hw => by
    cases w with
    | array ys => exact beqItems_sortKeys hv hw
    | _ => rfl
  | .object xs, w, hv, hw => by
    cases w with
    | object ys =>
      have hentries := beqEntries_sortKeys hv.2
      rw [Bool.eq_iff_iff, beq_object_iff hv.1 hw.1]
      refine (beq_object_iff (sorted_sortedEntries xs).nodup (sorted_sortedEntries ys).nodup).trans
        (forall_congr' fun key => ?_)
      rw [lookup_sortedEntries hv.1, lookup_sortedEntries hw.1]
      rcases hx : xs.lookup key with _ | x
      · cases ys.lookup key <;> simp
      · rcases hy : ys.lookup key with _ | y
        · simp
        · have hy' : y.WellFormed := wellFormedEntries_iff.mp hw.2 _ (KeyMap.mem_of_lookup hy)
          simp [hentries _ (KeyMap.mem_of_lookup hx) hy']
    | _ => rfl
  | .null, w, _, _ => by cases w <;> rfl
  | .bool _, w, _, _ => by cases w <;> rfl
  | .number _, w, _, _ => by cases w <;> rfl
  | .string _, w, _, _ => by cases w <;> rfl
  termination_by structural v => v

theorem beqItems_sortKeys : ∀ {xs ys : List Value}, WellFormedItems xs → WellFormedItems ys →
    beqItems (sortKeysOfItems xs) (sortKeysOfItems ys) = beqItems xs ys
  | [], ys, _, _ => by cases ys <;> rfl
  | x :: xs, ys, hxs, hys => by
    cases ys with
    | nil => rfl
    | cons y ys =>
      exact congrArg₂ (· && ·) (beq_sortKeys hxs.1 hys.1) (beqItems_sortKeys hxs.2 hys.2)
  termination_by structural xs => xs

theorem beqEntries_sortKeys : ∀ {xs : List (String × Value)}, WellFormedEntries xs →
    ∀ entry ∈ xs, ∀ {w : Value}, w.WellFormed → entry.2.sortKeys.beq w.sortKeys = entry.2.beq w
  | [], _ => fun _ hmem => absurd hmem List.not_mem_nil
  | (_, _) :: _, h => List.forall_mem_cons.mpr
      ⟨beq_sortKeys h.1, beqEntries_sortKeys h.2⟩
  termination_by structural xs => xs

end

/-! ## Alike values -/

/-- Two values that are the same up to the order of the keys. -/
structure Alike (v w : Value) : Prop where
  left : v.WellFormed
  right : w.WellFormed
  sortKeys_eq : v.sortKeys = w.sortKeys

/-- Two objects whose keys lead to alike values. -/
structure AlikeEntries (xs ys : List (String × Value)) : Prop where
  left : (xs.map Prod.fst).Nodup
  right : (ys.map Prod.fst).Nodup
  lookup : ∀ key, Option.Rel Alike (xs.lookup key) (ys.lookup key)

theorem AlikeEntries.perm_keys {xs ys : List (String × Value)} (h : AlikeEntries xs ys) :
    (xs.map Prod.fst).Perm (ys.map Prod.fst) :=
  KeyMap.perm_keys h.left h.right fun key => isSome_eq_of_rel (h.lookup key)

theorem Alike.refl {v : Value} (h : v.WellFormed) : Alike v v := ⟨h, h, rfl⟩

theorem Alike.bool (b : Bool) : Alike (.bool b) (.bool b) := .refl trivial

theorem Alike.number (x : Float) : Alike (.number x) (.number x) := .refl trivial

theorem Alike.string (s : String) : Alike (.string s) (.string s) := .refl trivial

theorem alikeItems_of_map_eq : ∀ {xs ys : List Value}, WellFormedItems xs → WellFormedItems ys →
    xs.map sortKeys = ys.map sortKeys → List.Forall₂ Alike xs ys
  | [], [], _, _, _ => .nil
  | _ :: _, _ :: _, hxs, hys, h =>
    have hcons := List.cons.inj h
    .cons ⟨hxs.1, hys.1, hcons.1⟩ (alikeItems_of_map_eq hxs.2 hys.2 hcons.2)

/-- Items that are alike make alike arrays. -/
theorem Alike.array {xs ys : List Value} (h : List.Forall₂ Alike xs ys) :
    Alike (.array xs) (.array ys) := by
  induction h with
  | nil => exact .refl trivial
  | cons hvw _ ih =>
    exact ⟨⟨hvw.left, ih.left⟩, ⟨hvw.right, ih.right⟩,
      congrArg Value.array (congrArg₂ List.cons hvw.sortKeys_eq (Value.array.inj ih.sortKeys_eq))⟩

/-- Keys that lead to alike values make alike objects. -/
theorem Alike.object {xs ys : List (String × Value)} (h : AlikeEntries xs ys) :
    Alike (.object xs) (.object ys) := by
  refine ⟨⟨h.left, wellFormedEntries_iff.mpr ?_⟩, ⟨h.right, wellFormedEntries_iff.mpr ?_⟩,
    congrArg Value.object
      ((sorted_sortedEntries xs).ext (sorted_sortedEntries ys) fun key => ?_)⟩
  · rintro ⟨key, v⟩ hmem
    have hrel := h.lookup key
    rw [KeyMap.lookup_of_mem h.left hmem] at hrel
    obtain ⟨w, -, hvw⟩ := exists_of_rel_some hrel
    exact hvw.left
  · rintro ⟨key, w⟩ hmem
    have hrel := h.lookup key
    rw [KeyMap.lookup_of_mem h.right hmem] at hrel
    cases hv : xs.lookup key with
    | none => rw [hv] at hrel; cases hrel
    | some v =>
      rw [hv] at hrel
      cases hrel with
      | some hvw => exact hvw.right
  · refine (lookup_sortedEntries h.left key).trans
      (.trans ?_ (lookup_sortedEntries h.right key).symm)
    have hrel := h.lookup key
    generalize xs.lookup key = v at hrel
    generalize ys.lookup key = w at hrel
    cases hrel with
    | none => rfl
    | some hvw => exact congrArg some hvw.sortKeys_eq

/-- **What alike values are made of.** -/
theorem Alike.split {motive : ∀ v w, Alike v w → Prop} (null : motive .null .null (.refl trivial))
    (bool : ∀ b, motive _ _ (.bool b)) (number : ∀ x, motive _ _ (.number x))
    (string : ∀ s, motive _ _ (.string s))
    (array : ∀ xs ys (h : List.Forall₂ Alike xs ys), motive _ _ (.array h))
    (object : ∀ xs ys (h : AlikeEntries xs ys), motive _ _ (.object h))
    {v w : Value} (h : Alike v w) : motive v w h := by
  obtain ⟨hv, hw, hsort⟩ := h
  rcases v with _ | b | x | s | xs | xs <;> rcases w with _ | b' | x' | s' | ys | ys <;>
    try cases hsort
  case null.null => exact null
  case bool.bool => exact bool b
  case number.number => exact number x
  case string.string => exact string s
  case array.array =>
    have hmap := Value.array.inj hsort
    rw [sortKeysOfItems_eq_map, sortKeysOfItems_eq_map] at hmap
    exact array xs ys (alikeItems_of_map_eq hv hw hmap)
  case object.object =>
    have hsorted : sortedEntries xs = sortedEntries ys := Value.object.inj hsort
    refine object xs ys ⟨hv.1, hw.1, fun key => ?_⟩
    have hlookup := congrArg (List.lookup key) hsorted
    rw [lookup_sortedEntries hv.1, lookup_sortedEntries hw.1] at hlookup
    rcases hx : xs.lookup key with _ | x <;> rcases hy : ys.lookup key with _ | y <;>
      rw [hx, hy] at hlookup
    · exact .none
    · cases hlookup
    · cases hlookup
    · exact .some ⟨wellFormedEntries_iff.mp hv.2 _ (KeyMap.mem_of_lookup hx),
        wellFormedEntries_iff.mp hw.2 _ (KeyMap.mem_of_lookup hy), Option.some.inj hlookup⟩

namespace Alike

variable {v w v' w' : Value}

/-! ## What is the same of alike values -/

theorem isNull_eq (h : Alike v w) : v.isNull = w.isNull := by
  cases h using Alike.split <;> rfl

theorem truthy_eq (h : Alike v w) : v.truthy = w.truthy := by
  cases h using Alike.split with
  | array xs ys h => cases h <;> rfl
  | object xs ys h =>
    have hempty := h.perm_keys.isEmpty_eq
    rw [List.isEmpty_map, List.isEmpty_map] at hempty
    exact congrArg (!·) hempty
  | _ => rfl

/-- **Equality does not see the order of keys.** -/
theorem beq_eq (h : Alike v w) (h' : Alike v' w') : (v == v') = (w == w') := by
  change v.beq v' = w.beq w'
  rw [← beq_sortKeys h.left h'.left, ← beq_sortKeys h.right h'.right, h.sortKeys_eq,
    h'.sortKeys_eq]

/-! ## Paths -/

theorem child? (h : Alike v w) (segment : String) :
    Option.Rel Alike (v.child? segment) (w.child? segment) := by
  cases h using Alike.split with
  | array xs ys h =>
    rw [Value.child?, Value.child?]
    rcases position? segment with _ | i
    · exact .none
    · exact rel_getElem? h i
  | object xs ys h => exact h.lookup segment
  | _ => exact .none

/-- **A path leads to alike values.** -/
theorem resolve (h : Alike v w) (path : String) :
    Option.Rel Alike (v.resolve path) (w.resolve path) :=
  rel_resolve Alike.child? h path

end Alike

/-- An insertion into alike objects leaves them so. -/
theorem AlikeEntries.insert {xs ys : List (String × Value)} (h : AlikeEntries xs ys) (key : String)
    {v w : Value} (hvw : Alike v w) :
    AlikeEntries (Value.insert key v xs) (Value.insert key w ys) where
  left := nodup_insert h.left
  right := nodup_insert h.right
  lookup other := by
    rw [lookup_insert, lookup_insert]
    split
    · exact .some hvw
    · exact h.lookup other

/-! ## Where the order shows -/

mutual

/-- Whether some object in a value has more than one key, so that its keys have an order. -/
def hasOrder : Value → Bool
  | .array items => hasOrderInItems items
  | .object entries => decide (1 < entries.length) || hasOrderInEntries entries
  | _ => false
  termination_by structural v => v

/-- Whether one of the items has an order. -/
def hasOrderInItems : List Value → Bool
  | [] => false
  | v :: rest => v.hasOrder || hasOrderInItems rest
  termination_by structural items => items

/-- Whether the value of one of the entries has an order. -/
def hasOrderInEntries : List (String × Value) → Bool
  | [] => false
  | (_, v) :: rest => v.hasOrder || hasOrderInEntries rest
  termination_by structural entries => entries

end

/-- At most one key leads to a value; in an alike object it is the only one as well. -/
theorem AlikeEntries.eq_of_length_le {xs ys : List (String × Value)} (h : AlikeEntries xs ys)
    (hlength : xs.length ≤ 1) :
    (xs = [] ∧ ys = []) ∨ ∃ key v w, xs = [(key, v)] ∧ ys = [(key, w)] ∧ Alike v w := by
  have hperm := h.perm_keys
  rcases xs with _ | ⟨⟨key, v⟩, _ | ⟨second, rest⟩⟩
  · have hys : ys.map Prod.fst = [] := hperm.symm.eq_nil
    exact .inl ⟨rfl, List.map_eq_nil_iff.mp hys⟩
  · have hys : ys.map Prod.fst = [key] := List.perm_singleton.mp hperm.symm
    rcases ys with _ | ⟨⟨key', w⟩, _ | ⟨second, rest⟩⟩
    · cases hys
    · obtain rfl := (List.cons.inj hys).1
      have hrel := h.lookup key'
      rw [List.lookup_cons_self, List.lookup_cons_self] at hrel
      cases hrel with
      | some hvw => exact .inr ⟨key', v, w, rfl, rfl, hvw⟩
    · cases (List.cons.inj hys).2
  · simp only [List.length_cons] at hlength
    omega

mutual

/-- **A value whose keys have no order** is alike to itself alone. -/
theorem Alike.eq_of_hasOrder_eq_false : ∀ {v w : Value}, Alike v w → v.hasOrder = false → v = w
  | .array xs, w, h, horder => by
    cases h using Alike.split with
    | array _ ys h => exact congrArg Value.array (eq_of_hasOrderInItems_eq_false h horder)
  | .object xs, w, h, horder => by
    rw [hasOrder, Bool.or_eq_false_iff, decide_eq_false_iff_not, Nat.not_lt] at horder
    have hentries := eq_of_hasOrderInEntries_eq_false horder.2
    cases h using Alike.split with
    | object _ ys h =>
      rcases h.eq_of_length_le horder.1 with ⟨rfl, rfl⟩ | ⟨key, v, w, rfl, rfl, hvw⟩
      · rfl
      · exact congrArg (fun x => Value.object [(key, x)]) (hentries _ List.mem_cons_self hvw)
  | .null, w, h, _ => by cases h using Alike.split; rfl
  | .bool _, w, h, _ => by cases h using Alike.split; rfl
  | .number _, w, h, _ => by cases h using Alike.split; rfl
  | .string _, w, h, _ => by cases h using Alike.split; rfl
  termination_by structural v => v

theorem eq_of_hasOrderInItems_eq_false : ∀ {xs ys : List Value}, List.Forall₂ Alike xs ys →
    hasOrderInItems xs = false → xs = ys
  | [], _, h, _ => by cases h; rfl
  | _ :: _, _, h, horder => by
    cases h with
    | cons hvw hrest =>
      rw [hasOrderInItems, Bool.or_eq_false_iff] at horder
      exact congrArg₂ List.cons (hvw.eq_of_hasOrder_eq_false horder.1)
        (eq_of_hasOrderInItems_eq_false hrest horder.2)
  termination_by structural xs => xs

theorem eq_of_hasOrderInEntries_eq_false : ∀ {xs : List (String × Value)},
    hasOrderInEntries xs = false → ∀ entry ∈ xs, ∀ {w : Value}, Alike entry.2 w → entry.2 = w
  | [], _ => fun _ hmem => absurd hmem List.not_mem_nil
  | (_, _) :: _, horder =>
    have hsplit := Bool.or_eq_false_iff.mp horder
    List.forall_mem_cons.mpr ⟨fun hvw => hvw.eq_of_hasOrder_eq_false hsplit.1,
      eq_of_hasOrderInEntries_eq_false hsplit.2⟩
  termination_by structural xs => xs

end

end Value

end DecisionRules
