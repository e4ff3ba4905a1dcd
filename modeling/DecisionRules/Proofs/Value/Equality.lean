import Mathlib
import DecisionRules.Proofs.Value.KeyOrder

/-!
# Proofs/Value/Equality — equality has no sides

Equality looks the keys of the left object up in the right one, and not the other way round.  But
objects that repeat no key and have equally many entries have the same keys as soon as the one has
those of the other (`Value.beq_object_iff`).  So two values are equal from either side
(`Value.beq_comm`), at any depth.
-/

namespace DecisionRules

/-- Doubles are equal from either side. -/
theorem Binary64.beq_symm {x y : Float} (h : (x == y) = true) : (y == x) = true := by
  obtain ⟨hx, hy, heq⟩ := Float.beq_iff_ne_nan_and_eq.mp h
  refine Float.beq_iff_ne_nan_and_eq.mpr ⟨hy, hx, ?_⟩
  rcases heq with rfl | ⟨rfl, rfl⟩ | ⟨rfl, rfl⟩
  · exact .inl rfl
  · exact .inr (.inr ⟨rfl, rfl⟩)
  · exact .inr (.inl ⟨rfl, rfl⟩)

/-- Two look-ups, taken the other way round. -/
theorem rel_swap {α β : Type} {R : α → β → Prop} {S : β → α → Prop} {a : Option α} {b : Option β}
    (hrel : Option.Rel R a b) (h : ∀ x y, a = some x → b = some y → R x y → S y x) :
    Option.Rel S b a := by
  cases hrel with
  | some hxy => exact .some (h _ _ rfl rfl hxy)
  | none => exact .none

namespace Value

mutual

/-- **What is equal is equal from the other side.** -/
theorem beq_symm : ∀ {v w : Value}, v.WellFormed → w.WellFormed → v.beq w = true → w.beq v = true
  | .array xs, w, hv, hw, h => by
    cases w with
    | array ys => exact beqItems_symm hv hw h
    | _ => cases h
  | .object xs, w, hv, hw, h => by
    cases w with
    | object ys =>
      have hlookup := (beq_object_iff hv.1 hw.1).mp h
      refine (beq_object_iff hw.1 hv.1).mpr fun key => ?_
      refine rel_swap (hlookup key) fun x y hx hy hxy => ?_
      have hy' : y.WellFormed := wellFormedEntries_iff.mp hw.2 _ (KeyMap.mem_of_lookup hy)
      exact beqEntries_symm hv.2 _ (KeyMap.mem_of_lookup hx) hy' hxy
    | _ => cases h
  | .null, w, _, _, h => by
    cases w with
    | null => rfl
    | _ => cases h
  | .bool a, w, _, _, h => by
    cases w with
    | bool b => exact BEq.symm h
    | _ => cases h
  | .number x, w, _, _, h => by
    cases w with
    | number y => exact Binary64.beq_symm h
    | _ => cases h
  | .string s, w, _, _, h => by
    cases w with
    | string t => exact BEq.symm h
    | _ => cases h
  termination_by structural v => v

theorem beqItems_symm : ∀ {xs ys : List Value}, WellFormedItems xs → WellFormedItems ys →
    beqItems xs ys = true → beqItems ys xs = true
  | [], ys, _, _, h => by
    cases ys with
    | nil => rfl
    | cons => cases h
  | x :: xs, ys, hxs, hys, h => by
    cases ys with
    | nil => cases h
    | cons y ys =>
      obtain ⟨hhead, htail⟩ := Bool.and_eq_true_iff.mp h
      exact Bool.and_eq_true_iff.mpr
        ⟨beq_symm hxs.1 hys.1 hhead, beqItems_symm hxs.2 hys.2 htail⟩
  termination_by structural xs => xs

theorem beqEntries_symm : ∀ {xs : List (String × Value)}, WellFormedEntries xs →
    ∀ entry ∈ xs, ∀ {w : Value}, w.WellFormed → entry.2.beq w = true → w.beq entry.2 = true
  | [], _ => fun _ hmem => absurd hmem List.not_mem_nil
  | (_, _) :: _, h => List.forall_mem_cons.mpr ⟨beq_symm h.1, beqEntries_symm h.2⟩
  termination_by structural xs => xs

end

/-- **Equality has no sides.** -/
theorem beq_comm {v w : Value} (hv : v.WellFormed) (hw : w.WellFormed) : (v == w) = (w == v) :=
  Bool.eq_iff_iff.mpr ⟨beq_symm hv hw, beq_symm hw hv⟩

end Value

end DecisionRules
