import DecisionRules.Proofs.Number.Order
import DecisionRules.Proofs.Value.Addressing
import DecisionRules.Proofs.Value.Equality

/-!
# Proofs/Value/Equivalence — equality is an equivalence but for one number

Equality of values is transitive (`Value.beq_trans`), as it has no sides (`Value.beq_symm`): objects
that are equal have equal values under the same keys, so two equalities are put together key by key.

It is reflexive wherever equality of doubles is.  That fails for the one double that is not a
number, and so it fails for exactly those values that have it as a part (`Value.beq_self_iff`).
-/

namespace DecisionRules

theorem Binary64.beq_trans {x y z : Float} (h : (x == y) = true) (h' : (y == z) = true) :
    (x == z) = true := by
  obtain ⟨r, hx, hy⟩ := beq_iff.mp h
  obtain ⟨r', hy', hz⟩ := beq_iff.mp h'
  obtain rfl : r = r' := Option.some.inj (hy.symm.trans hy')
  exact beq_iff.mpr ⟨r, hx, hz⟩

/-- Two look-ups, one after the other. -/
theorem rel_trans {α β γ : Type} {R : α → β → Prop} {S : β → γ → Prop} {T : α → γ → Prop}
    {a : Option α} {b : Option β} {c : Option γ} (hab : Option.Rel R a b) (hbc : Option.Rel S b c)
    (h : ∀ x y z, a = some x → b = some y → c = some z → R x y → S y z → T x z) :
    Option.Rel T a c := by
  cases hab with
  | some hxy =>
    obtain ⟨z, rfl, hyz⟩ := exists_of_rel_some hbc
    exact .some (h _ _ _ rfl rfl rfl hxy hyz)
  | none =>
    cases hbc
    exact .none

namespace Value

/-! ## Transitivity -/

mutual

/-- **What equals an equal is equal.** -/
theorem beq_trans : ∀ {u v w : Value}, u.WellFormed → v.WellFormed → w.WellFormed →
    u.beq v = true → v.beq w = true → u.beq w = true
  | .array xs, v, w, hu, hv, hw, h, h' => by
    cases v with
    | array ys =>
      cases w with
      | array zs => exact beqItems_trans hu hv hw h h'
      | _ => cases h'
    | _ => cases h
  | .object xs, v, w, hu, hv, hw, h, h' => by
    cases v with
    | object ys =>
      cases w with
      | object zs =>
        have hxy := (beq_object_iff hu.1 hv.1).mp h
        have hyz := (beq_object_iff hv.1 hw.1).mp h'
        refine (beq_object_iff hu.1 hw.1).mpr fun key => ?_
        refine rel_trans (hxy key) (hyz key) fun x y z hx hy hz => ?_
        have hy' : y.WellFormed := wellFormedEntries_iff.mp hv.2 _ (KeyMap.mem_of_lookup hy)
        have hz' : z.WellFormed := wellFormedEntries_iff.mp hw.2 _ (KeyMap.mem_of_lookup hz)
        exact beqEntries_trans hu.2 _ (KeyMap.mem_of_lookup hx) hy' hz'
      | _ => cases h'
    | _ => cases h
  | .null, v, w, _, _, _, h, h' => by
    cases v with
    | null => exact h'
    | _ => cases h
  | .bool a, v, w, _, _, _, h, h' => by
    cases v with
    | bool b => exact (beq_iff_eq.mp h : a = b) ▸ h'
    | _ => cases h
  | .number x, v, w, _, _, _, h, h' => by
    cases v with
    | number y =>
      cases w with
      | number z => exact Binary64.beq_trans h h'
      | _ => cases h'
    | _ => cases h
  | .string s, v, w, _, _, _, h, h' => by
    cases v with
    | string t => exact (beq_iff_eq.mp h : s = t) ▸ h'
    | _ => cases h
  termination_by structural u => u

theorem beqItems_trans : ∀ {xs ys zs : List Value}, WellFormedItems xs → WellFormedItems ys →
    WellFormedItems zs → beqItems xs ys = true → beqItems ys zs = true → beqItems xs zs = true
  | [], ys, zs, _, _, _, h, h' => by
    cases ys with
    | nil => exact h'
    | cons => cases h
  | x :: xs, ys, zs, hxs, hys, hzs, h, h' => by
    cases ys with
    | nil => cases h
    | cons y ys =>
      cases zs with
      | nil => cases h'
      | cons z zs =>
        obtain ⟨hhead, htail⟩ := Bool.and_eq_true_iff.mp h
        obtain ⟨hhead', htail'⟩ := Bool.and_eq_true_iff.mp h'
        exact Bool.and_eq_true_iff.mpr ⟨beq_trans hxs.1 hys.1 hzs.1 hhead hhead',
          beqItems_trans hxs.2 hys.2 hzs.2 htail htail'⟩
  termination_by structural xs => xs

theorem beqEntries_trans : ∀ {xs : List (String × Value)}, WellFormedEntries xs →
    ∀ entry ∈ xs, ∀ {v w : Value}, v.WellFormed → w.WellFormed →
      entry.2.beq v = true → v.beq w = true → entry.2.beq w = true
  | [], _ => fun _ hmem => absurd hmem List.not_mem_nil
  | (_, _) :: _, h => List.forall_mem_cons.mpr ⟨beq_trans h.1, beqEntries_trans h.2⟩
  termination_by structural xs => xs

end

/-! ## Reflexivity -/

/-- No part of a value is the double that is not a number. -/
def NanFree (v : Value) : Prop := ∀ steps x, v.Contains steps (.number x) → x.isNaN = false

theorem nanFree_number_iff {x : Float} : (Value.number x).NanFree ↔ x.isNaN = false := by
  refine ⟨fun h => h [] x (.self _), fun h steps y hcontains => ?_⟩
  cases hcontains with
  | self => exact h

theorem nanFree_array_iff {items : List Value} :
    (Value.array items).NanFree ↔ ∀ v ∈ items, v.NanFree := by
  constructor
  · intro h v hv steps x inner
    obtain ⟨i, stands⟩ := List.getElem?_of_mem hv
    exact h (.position i :: steps) x (.item stands inner)
  · intro h steps x hcontains
    cases hcontains with
    | item stands inner => exact h _ (List.mem_of_getElem? stands) _ x inner

theorem nanFree_object_iff {entries : List (String × Value)} :
    (Value.object entries).NanFree ↔ ∀ entry ∈ entries, entry.2.NanFree := by
  constructor
  · intro h entry mem steps x inner
    exact h (.key entry.1 :: steps) x (.entry mem inner)
  · intro h steps x hcontains
    cases hcontains with
    | entry mem inner => exact h _ mem _ x inner

/-- An object equals itself if the value of each entry does. -/
theorem beq_object_self_iff {entries : List (String × Value)}
    (h : (entries.map Prod.fst).Nodup) : (Value.object entries).beq (.object entries) = true ↔
      ∀ entry ∈ entries, entry.2.beq entry.2 = true := by
  rw [beq_object_iff h h]
  constructor
  · rintro hrel ⟨key, v⟩ hmem
    have hself := hrel key
    rw [KeyMap.lookup_of_mem h hmem] at hself
    obtain ⟨w, hw, hbeq⟩ := exists_of_rel_some hself
    rwa [← Option.some.inj hw] at hbeq
  · intro hself key
    rcases hv : entries.lookup key with _ | v
    · exact .none
    · exact .some (hself _ (KeyMap.mem_of_lookup hv))

mutual

/-- **A value equals itself unless it has a part that is not a number.** -/
theorem beq_self_iff : ∀ {v : Value}, v.WellFormed → (v.beq v = true ↔ v.NanFree)
  | .array _, h => (beqItems_self_iff h).trans nanFree_array_iff.symm
  | .object _, h =>
    (beq_object_self_iff h.1).trans ((beqEntries_self_iff h.2).trans nanFree_object_iff.symm)
  | .number x, _ => by
    rw [nanFree_number_iff, Float.isNaN_eq_decide_eq_nan, decide_eq_false_iff_not]
    exact Float.beq_self_iff
  | .null, _ => ⟨fun _ _ _ hcontains => (by cases hcontains), fun _ => rfl⟩
  | .bool _, _ => ⟨fun _ _ _ hcontains => (by cases hcontains), fun _ => beq_self_eq_true _⟩
  | .string _, _ => ⟨fun _ _ _ hcontains => (by cases hcontains), fun _ => beq_self_eq_true _⟩
  termination_by structural v => v

theorem beqItems_self_iff : ∀ {items : List Value}, WellFormedItems items →
    (beqItems items items = true ↔ ∀ v ∈ items, v.NanFree)
  | [], _ => ⟨fun _ _ hmem => absurd hmem List.not_mem_nil, fun _ => rfl⟩
  | _ :: _, h => by
    rw [beqItems, Bool.and_eq_true, beq_self_iff h.1, beqItems_self_iff h.2,
      List.forall_mem_cons]
  termination_by structural items => items

theorem beqEntries_self_iff : ∀ {entries : List (String × Value)}, WellFormedEntries entries →
    ((∀ entry ∈ entries, entry.2.beq entry.2 = true) ↔ ∀ entry ∈ entries, entry.2.NanFree)
  | [], _ => ⟨fun _ _ hmem => absurd hmem List.not_mem_nil,
      fun _ _ hmem => absurd hmem List.not_mem_nil⟩
  | (_, _) :: _, h => by
    rw [List.forall_mem_cons, List.forall_mem_cons, beqEntries_self_iff h.2, beq_self_iff h.1]
  termination_by structural entries => entries

end

end Value

end DecisionRules
