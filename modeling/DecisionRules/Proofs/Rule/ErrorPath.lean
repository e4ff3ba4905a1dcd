import DecisionRules.Proofs.Rule.TracePath

/-!
# Proofs/Rule/ErrorPath — an error in a node stands where its path says

An error in a node says of an object how many keys it has, or which unregistered key
(`EvalError.Describes`).  Its path is read as that of a step is (`Value.locate?`).  Whatever operator
the error came through, and in whatever iteration of a quantifier it was met, the path leads to the
object that is described, in the expression itself (`Value.run_structural`).
-/

namespace DecisionRules

/-- The names of all operators. -/
def Operator.registry : List String := Operator.all.map Operator.name

theorem Operator.isSome_ofName?_iff {name : String} :
    (Operator.ofName? name).isSome = true ↔ name ∈ Operator.registry := by
  simp [Operator.ofName?, Operator.registry]

/-- An error says what is wrong with an object at a path. -/
inductive EvalError.Describes (path : String) : EvalError → List (String × Value) → Prop
  /-- The object has no key, or more than one. -/
  | malformed {entries : List (String × Value)} (h : entries.length ≠ 1) :
    Describes path (.malformedNode path entries.length) entries
  /-- Its only key is no operator's. -/
  | unsupported {name : String} (argument : Value) (h : name ∉ Operator.registry) :
    Describes path (.unsupportedOperator name path) [(name, argument)]

/-- **What is wrong with an expression** is what an error describes. -/
theorem Value.describes_of_fault? {e : Value} {path : String} {err : EvalError}
    (h : e.fault? path = some err) : ∃ entries, e = .object entries ∧ err.Describes path entries := by
  unfold fault? at h
  split at h
  · rename_i name argument
    split at h
    · cases h
    · rename_i hname
      cases h
      exact ⟨_, rfl, .unsupported argument fun hmem => hname (Operator.isSome_ofName?_iff.mpr hmem)⟩
  · rename_i entries hentries
    cases h
    refine ⟨entries, rfl, .malformed fun hlength => ?_⟩
    obtain ⟨⟨name, argument⟩, rfl⟩ := List.length_eq_one_iff.mp hlength
    exact hentries name argument rfl
  · cases h

/-- **An error in a node describes the object at its path.** -/
theorem exists_described_of_evaluate {e c : Value} {err : EvalError}
    (h : evaluate e c = .error err) (hstructural : err.IsStructural) :
    ∃ path entries, e.locate? path = some (.object entries) ∧ err.Describes path entries := by
  obtain ⟨route, inner, hfollow, hfault⟩ :=
    e.run_structural _ _ (evaluate_error_iff.mp h) hstructural
  obtain ⟨entries, rfl, hdescribes⟩ := Value.describes_of_fault? hfault
  exact ⟨rootPath ++ route.text, entries, (e.locate?_text route).trans hfollow, hdescribes⟩

/-- **The path of an error leads to the node at fault.**  Followed into the expression, that of a
malformed node leads to an object with as many keys as the error says, which is not one; that of an
unsupported operator leads to an object whose only key is the name in the error, which is not in the
registry. -/
theorem locate?_of_evaluate_error (e c : Value) :
    (∀ path keys, evaluate e c = .error (.malformedNode path keys) →
      ∃ entries, e.locate? path = some (.object entries) ∧ entries.length = keys ∧ keys ≠ 1) ∧
    ∀ name path, evaluate e c = .error (.unsupportedOperator name path) →
      (∃ argument, e.locate? path = some (.object [(name, argument)])) ∧
        name ∉ Operator.registry := by
  constructor
  · intro path keys h
    obtain ⟨place, entries, hlocate, hdescribes⟩ := exists_described_of_evaluate h trivial
    cases hdescribes with
    | malformed hlength => exact ⟨entries, hlocate, rfl, hlength⟩
  · intro name path h
    obtain ⟨place, entries, hlocate, hdescribes⟩ := exists_described_of_evaluate h trivial
    cases hdescribes with
    | unsupported argument hname => exact ⟨⟨argument, hlocate⟩, hname⟩

/-- A stand-in that is no node, and one with an unknown operator: either is met at the second
element, by the predicate that the first one passes. -/
theorem locate?_of_evaluate_error_standIn :
    let e (standIn : Value) : Value := .object [("bl_any", .array [.array [.bool true, .bool false],
      .object [("if", .array [.object [("var", .string "item")], .null,
        .object [("var", .array [.string "absent", standIn])]])]])]
    let malformed : Value := .object [("a", .null), ("b", .null)]
    let unknown : Value := .object [("xor", .null)]
    let path := "$.predicate[1].default.default"
    (evaluate (e malformed) .null = .error (.malformedNode path 2) ∧
      ∃ entries, (e malformed).locate? path = some (.object entries) ∧ entries.length = 2 ∧ 2 ≠ 1) ∧
    evaluate (e unknown) .null = .error (.unsupportedOperator "xor" path) ∧
      (∃ argument, (e unknown).locate? path = some (.object [("xor", argument)])) ∧
      "xor" ∉ Operator.registry := by
  intro e malformed unknown path
  have hmalformed : evaluate (e malformed) .null = .error (.malformedNode path 2) := rfl
  have hunknown : evaluate (e unknown) .null = .error (.unsupportedOperator "xor" path) := rfl
  exact ⟨⟨hmalformed, (locate?_of_evaluate_error (e malformed) .null).1 path 2 hmalformed⟩,
    hunknown, (locate?_of_evaluate_error (e unknown) .null).2 "xor" path hunknown⟩

end DecisionRules
