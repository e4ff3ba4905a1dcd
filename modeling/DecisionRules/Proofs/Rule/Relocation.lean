import DecisionRules.Proofs.Rule.Expression

/-!
# Proofs/Rule/Relocation — an evaluation does not depend on where it happens

The path of a place is reported and otherwise not looked at.  So an expression evaluated below
another path does the same, and every path that it reports, in a step or in an error, goes on from
the other path instead (`Value.run_relocated`).

That is built into scripts: they make the same moves whatever the path of the node is, and what is
run at a move has the path of the node before its own.
-/

namespace DecisionRules

/-! ## Paths mapped -/

namespace TraceStep

mutual

/-- A step with all its paths mapped, those of the steps below it too. -/
def mapPath (f : String → String) : TraceStep → TraceStep
  | ⟨path, operator, result, arguments, children⟩ =>
    ⟨f path, operator, result, arguments, mapPaths f children⟩
  termination_by structural s => s

/-- A forest with all its paths mapped. -/
def mapPaths (f : String → String) : List TraceStep → List TraceStep
  | [] => []
  | s :: rest => s.mapPath f :: mapPaths f rest
  termination_by structural forest => forest

end

theorem mapPaths_append (f : String → String) (before after : List TraceStep) :
    mapPaths f (before ++ after) = mapPaths f before ++ mapPaths f after := by
  induction before with
  | nil => rfl
  | cons s rest ih => rw [List.cons_append, mapPaths, ih, mapPaths, List.cons_append]

end TraceStep

/-- An error with its path mapped, if it names one. -/
def EvalError.mapPath (f : String → String) : EvalError → EvalError
  | .malformedNode path keys => .malformedNode (f path) keys
  | .unsupportedOperator operator path => .unsupportedOperator operator (f path)
  | err => err

/-- An error in the arguments of a node names no path. -/
theorem EvalError.mapPath_of_not_isStructural {err : EvalError} (h : ¬ err.IsStructural)
    (f : String → String) : err.mapPath f = err := by
  cases err with
  | malformedNode => exact absurd trivial h
  | unsupportedOperator => exact absurd trivial h
  | _ => rfl

namespace Recorded

variable {α β : Type}

/-- A computation with all paths that it reports mapped. -/
def mapPath (f : String → String) : Recorded α → Recorded α
  | .error err => .error (err.mapPath f)
  | .ok (a, steps) => .ok (a, TraceStep.mapPaths f steps)

theorem mapPath_bind (f : String → String) (x : Recorded α) (next : α → Recorded β) :
    (x >>= next).mapPath f = x.mapPath f >>= fun a => (next a).mapPath f := by
  change (andThen x next).mapPath f = andThen (x.mapPath f) _
  rcases x with err | ⟨a, before⟩
  · rfl
  · simp only [andThen, mapPath]
    rcases next a with err | ⟨b, after⟩
    · rfl
    · exact congrArg (fun steps => Except.ok (b, steps)) (TraceStep.mapPaths_append f before after)

end Recorded

/-! ## Evaluation below another path -/

/-- What goes on from one path goes on from another. -/
def Carries (f : String → String) (p q : String) : Prop := ∀ rest, f (p ++ rest) = q ++ rest

namespace Carries

variable {f : String → String} {p q : String}

theorem append (h : Carries f p q) (more : String) : Carries f (p ++ more) (q ++ more) :=
  fun rest => by rw [String.append_assoc, h, String.append_assoc]

theorem self (h : Carries f p q) : f p = q := by
  have hempty := h ""
  rwa [String.append_empty, String.append_empty] at hempty

end Carries

/-- A move goes on from the path of the place. -/
theorem Place.move_eq (c : Value) (path : String) (m : Move) :
    Place.move ⟨c, path⟩ m = ⟨c, path ++ m.text⟩ := by
  cases m with
  | item i => rfl
  | part role => exact congrArg (Place.mk c) String.append_assoc

/-- Below another path an expression does the same, with its paths mapped. -/
def Value.Relocates (e : Value) : Prop :=
  ∀ (c : Value) ⦃f p q⦄, Carries f p q → e.run ⟨c, q⟩ = (e.run ⟨c, p⟩).mapPath f

/-- **A script relocates** if what it runs does. -/
theorem Script.relocated {α : Type} {sub? : Move → Option Value} {left : Move → Prop}
    {x : String → Recorded α} (h : Script sub? left x)
    (hinner : ∀ m inner, sub? m = some inner → inner.Relocates) {f : String → String}
    {p q : String} (hf : Carries f p q) : x q = (x p).mapPath f := by
  induction h with
  | gives a => rfl
  | faults own => exact congrArg Except.error (EvalError.mapPath_of_not_isStructural own f).symm
  | @runs left m e context next _ leads _ ih =>
    have hrun := hinner m e leads context (hf.append m.text)
    simp only [Recorded.mapPath_bind, Place.move_eq, hrun, ih]

namespace Value

theorem relocates (e : Value) : e.Relocates := by
  induction e using Value.moveInduction with
  | h e ih =>
    intro c f p q hf
    cases e using Value.expressionCases with
    | literal e hliteral =>
      rw [run_literal hliteral, run_literal hliteral]
      rfl
    | array items => exact (script_run_array items c).relocated ih hf
    | node name argument =>
      rw [run_node, run_node, runNamed, runNamed]
      rcases hname : Operator.ofName? name with _ | operator
      · exact congrArg (fun path => Except.error (EvalError.unsupportedOperator name path))
          hf.self.symm
      · have happly := (Operator.script_apply (Rule.inNode hname argument) c).relocated ih hf
        simp only [Operator.runNode, happly]
        rcases operator.apply argument.asArguments ⟨c, p⟩ with err | ⟨applied, children⟩
        · rfl
        · rw [← hf.self]
          rfl
    | malformed entries hlength =>
      rw [run_malformed hlength, run_malformed hlength]
      exact congrArg (fun path => Except.error (EvalError.malformedNode path entries.length))
        hf.self.symm

end Value

/-! ## From the root to anywhere -/

/-- A path that goes on from `p`, made to go on from `q`. -/
def rebase (p q path : String) : String := q ++ String.ofList (path.toList.drop p.toList.length)

theorem carries_rebase (p q : String) : Carries (rebase p q) p q := fun rest => by
  rw [rebase, String.toList_append, List.drop_left, String.ofList_toList]

/-- **What an evaluation gives from the root, it gives anywhere**, with its paths rebased. -/
theorem Value.run_of_evaluate {e c : Value} {outcome : Evaluation}
    (h : evaluate e c = .ok outcome) (path : String) : e.run ⟨c, path⟩ =
      .ok (outcome.result, TraceStep.mapPaths (rebase rootPath path) outcome.trace) := by
  rw [e.relocates c (carries_rebase rootPath path), evaluate_ok_iff.mp h]
  rfl

theorem Value.exists_run_of_evaluate {e c : Value} {outcome : Evaluation}
    (h : evaluate e c = .ok outcome) (path : String) :
    ∃ steps, e.run ⟨c, path⟩ = .ok (outcome.result, steps) :=
  ⟨_, Value.run_of_evaluate h path⟩

/-- **What it gives anywhere, it gives from the root.** -/
theorem Value.evaluate_of_run {e c v : Value} {path : String} {steps : List TraceStep}
    (h : e.run ⟨c, path⟩ = .ok (v, steps)) :
    evaluate e c = .ok ⟨v, TraceStep.mapPaths (rebase path rootPath) steps⟩ := by
  rw [evaluate_ok_iff, e.relocates c (carries_rebase path rootPath), h]
  rfl

end DecisionRules
