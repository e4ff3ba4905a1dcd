import DecisionRules.Proofs.Rule.Expression
import DecisionRules.Rule.Validate

/-!
# Proofs/Rule/Validation — what passes validation never fails by how it is built

Validation visits an expression in its own way: every item of every array and every argument,
whatever the operator makes of it.  So it visits at least what evaluation can be led to
(`Value.validateAt_follow?`), and an object it passes is a node with a registered operator
(`Value.fault?_of_validateAt`).  An error in a node would name an object that is not
(`Value.run_structural`), so there is none.
-/

namespace DecisionRules

namespace Value

/-! ## What validation visits -/

/-- **Validation visits every item of a list.** -/
theorem validateItems_getElem? : ∀ {items : List Value} {i : Nat} {path : String},
    validateItems items i path = .ok () →
      ∀ {j : Nat} {e : Value}, items[j]? = some e → ∃ p, e.validateAt p = .ok ()
  | [], _, _, _, _, _, he => by simp at he
  | first :: rest, i, path, h, j, e, he => by
    rw [validateItems] at h
    rcases hfirst : first.validateAt (path ++ positionText i) with err | ⟨⟩
    · rw [hfirst] at h
      cases h
    · rw [hfirst] at h
      rcases j with _ | j
      · obtain rfl : first = e := by simpa using he
        exact ⟨_, hfirst⟩
      · exact validateItems_getElem? (i := i + 1) h (by simpa using he)

/-- A node that passes validation has a registered operator, and its argument passes too. -/
theorem validateAt_node {name : String} {argument : Value} {path : String}
    (h : (Value.object [(name, argument)]).validateAt path = .ok ()) :
    (Operator.ofName? name).isSome = true ∧ argument.validateAt (path ++ "." ++ name) = .ok () := by
  rw [validateAt] at h
  split at h
  · rename_i hname
    exact ⟨hname, h⟩
  · cases h

/-- **Validation visits whatever a move leads to.** -/
theorem validateAt_sub? {e inner : Value} {m : Move} {path : String}
    (h : e.validateAt path = .ok ()) (hsub : e.sub? m = some inner) :
    ∃ p, inner.validateAt p = .ok () := by
  unfold sub? at hsub
  split at hsub
  · exact validateItems_getElem? h hsub
  · rename_i name argument role
    obtain ⟨-, hargument⟩ := validateAt_node h
    obtain ⟨operator, -, hpart⟩ := Option.bind_eq_some_iff.mp hsub
    unfold Operator.part? at hpart
    split at hpart
    · obtain ⟨j, hj⟩ := List.getElem?_of_mem (mem_of_pick? hpart)
      exact validateItems_getElem? hargument hj
    · split at hpart
      · cases hpart
        exact ⟨_, hargument⟩
      · cases hpart
  · cases hsub

/-- …and whatever a route leads to. -/
theorem validateAt_follow? : ∀ {route : Route} {e inner : Value} {path : String},
    e.validateAt path = .ok () → e.follow? route = some inner → ∃ p, inner.validateAt p = .ok ()
  | [], _, _, _, h, hfollow => by
    cases hfollow
    exact ⟨_, h⟩
  | m :: route, e, inner, path, h, hfollow => by
    obtain ⟨next, hsub, hrest⟩ := Option.bind_eq_some_iff.mp hfollow
    obtain ⟨p, hp⟩ := validateAt_sub? h hsub
    exact validateAt_follow? hp hrest

/-- **What passes validation has no fault itself.** -/
theorem fault?_of_validateAt {e : Value} {path : String} (h : e.validateAt path = .ok ())
    (place : String) : e.fault? place = none := by
  unfold fault?
  split
  · rw [if_pos (validateAt_node h).1]
  · rename_i entries hentries
    rcases entries with _ | ⟨⟨name, argument⟩, _ | ⟨second, rest⟩⟩
    · cases h
    · exact absurd rfl (hentries name argument)
    · cases h
  · rfl

end Value

/-! ## No structural error -/

/-- An evaluation of what passes validation may fail, but not by how a node is built. -/
theorem not_isStructural_of_validate {e c : Value} (h : validate e = .ok ()) {err : EvalError}
    (herr : evaluate e c = .error err) : ¬ err.IsStructural := by
  intro hstructural
  obtain ⟨route, inner, hfollow, hfault⟩ :=
    e.run_structural _ _ (evaluate_error_iff.mp herr) hstructural
  obtain ⟨p, hp⟩ := Value.validateAt_follow? h hfollow
  rw [Value.fault?_of_validateAt hp] at hfault
  cases hfault

/-- **What passes validation never fails by how it is built**: in no context does its evaluation
come upon an object that is no node, or upon an unknown operator. -/
theorem evaluate_ne_structural_of_validate (e c : Value) (h : validate e = .ok ()) :
    (∀ path keys, evaluate e c ≠ .error (.malformedNode path keys)) ∧
      ∀ name path, evaluate e c ≠ .error (.unsupportedOperator name path) :=
  ⟨fun _ _ herr => not_isStructural_of_validate h herr trivial,
    fun _ _ herr => not_isStructural_of_validate h herr trivial⟩

/-- A predicate run on the keys of an object that would be no node: what comes out of the context is
not evaluated. -/
theorem evaluate_ne_structural_of_validate_quantifier :
    let e : Value := .object [("bl_any", .array [.object [("var", .string "flags")],
      .object [("!", .object [("var", .string "item")])]])]
    let c : Value := .object [("flags", .object [("a", .null), ("var", .bool true)])]
    validate e = .ok () ∧
      (∀ path keys, evaluate e c ≠ .error (.malformedNode path keys)) ∧
      ∀ name path, evaluate e c ≠ .error (.unsupportedOperator name path) :=
  have h : validate (.object [("bl_any", .array [.object [("var", .string "flags")],
      .object [("!", .object [("var", .string "item")])]])]) = .ok () := rfl
  ⟨h, evaluate_ne_structural_of_validate _ _ h⟩

end DecisionRules
