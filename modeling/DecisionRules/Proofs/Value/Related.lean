import Mathlib.Data.List.Forall2
import DecisionRules.Value.Path

/-!
# Proofs/Value/Related — lists and paths along a relation

What holds of two lists whose items are related one by one, and of two values that a path is
followed in at once.  A relation that steps of a path keep is kept by every path
(`Value.rel_resolve`).
-/

namespace DecisionRules

section Lists

variable {α β γ : Type} {R : α → β → Prop} {xs : List α} {ys : List β}

theorem map_eq_of_forall₂ {f : α → γ} {g : β → γ} (h : List.Forall₂ R xs ys)
    (hfg : ∀ x y, R x y → f x = g y) : xs.map f = ys.map g := by
  induction h with
  | nil => rfl
  | cons hxy _ ih => exact congrArg₂ List.cons (hfg _ _ hxy) ih

theorem any_eq_of_forall₂ {f : α → Bool} {g : β → Bool} (h : List.Forall₂ R xs ys)
    (hfg : ∀ x y, R x y → f x = g y) : xs.any f = ys.any g := by
  simpa only [List.any_map, Function.comp_def, id] using
    congrArg (List.any · id) (map_eq_of_forall₂ h hfg)

theorem all_eq_of_forall₂ {f : α → Bool} {g : β → Bool} (h : List.Forall₂ R xs ys)
    (hfg : ∀ x y, R x y → f x = g y) : xs.all f = ys.all g := by
  simpa only [List.all_map, Function.comp_def, id] using
    congrArg (List.all · id) (map_eq_of_forall₂ h hfg)

/-- Two lists that are related to the same list are related to each other. -/
theorem forall₂_of_common {zs : List γ} {P : α → γ → Prop} {Q : β → γ → Prop}
    (hxs : List.Forall₂ P xs zs) (hys : List.Forall₂ Q ys zs)
    (h : ∀ x y z, P x z → Q y z → R x y) : List.Forall₂ R xs ys := by
  induction hxs generalizing ys with
  | nil =>
    cases hys
    exact .nil
  | cons hx _ ih =>
    obtain ⟨y, rest, hy, hrest, rfl⟩ := List.forall₂_cons_right_iff.mp hys
    exact .cons (h _ _ _ hx hy) (ih hrest)

theorem rel_getElem? (h : List.Forall₂ R xs ys) (i : Nat) : Option.Rel R xs[i]? ys[i]? := by
  induction h generalizing i with
  | nil => exact .none
  | cons hxy _ ih =>
    cases i with
    | zero => exact .some hxy
    | succ i => exact ih i

theorem rel_getLast? (h : List.Forall₂ R xs ys) : Option.Rel R xs.getLast? ys.getLast? := by
  rw [List.getLast?_eq_getElem?, List.getLast?_eq_getElem?, h.length_eq]
  exact rel_getElem? h _

end Lists

namespace Value

variable {R : Value → Value → Prop} {v w : Value}

/-- **A path leads to related values**, if each of its steps does. -/
theorem rel_resolve (hchild : ∀ {v w}, R v w → ∀ segment : String,
    Option.Rel R (v.child? segment) (w.child? segment)) (h : R v w) (path : String) :
    Option.Rel R (v.resolve path) (w.resolve path) := by
  have hwalk (segments : List String) : Option.Rel R (v.walk segments) (w.walk segments) := by
    induction segments generalizing v w with
    | nil => exact .some h
    | cons segment rest ih =>
      have hstep := hchild h segment
      rw [walk, walk]
      generalize v.child? segment = a at hstep
      generalize w.child? segment = b at hstep
      cases hstep with
      | none => exact .none
      | some hab => exact ih hab
  rw [resolve, resolve]
  split
  · exact .some h
  · exact hwalk _

theorem hasAt_eq_of_rel {path : String} (h : Option.Rel R (v.resolve path) (w.resolve path))
    (hnull : ∀ {v w}, R v w → v.isNull = w.isNull) : v.hasAt path = w.hasAt path := by
  rw [hasAt, hasAt]
  generalize v.resolve path = a at h
  generalize w.resolve path = b at h
  cases h with
  | none => rfl
  | some hab => exact congrArg (!·) (hnull hab)

end Value

end DecisionRules
