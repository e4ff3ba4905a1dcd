import DecisionRules.Proofs.Rule.Relocation

/-!
# Proofs/Rule/Verdict — what an expression comes to, apart from where

Besides what it comes to, an evaluation tells where things happened: in the paths of the trace, and
in the one path that an error may name.  Without that, what is left of it is a value, or an error
without a path (`Value.verdict`).

A verdict is the same at every place (`Value.verdict_run`), and the verdict of a sequence is the
sequence of the verdicts (`Recorded.verdict_bind`).  So what a node comes to is computed from what
its arguments come to, wherever they stand, and two expressions that are built from the same
arguments in different ways are compared by an equation.
-/

namespace DecisionRules

section Outcomes

variable {ε α β : Type}

@[simp] theorem ok_bind (a : α) (f : α → Except ε β) : (Except.ok a >>= f) = f a := rfl

@[simp] theorem error_bind (err : ε) (f : α → Except ε β) :
    (Except.error err >>= f) = .error err := rfl

@[simp] theorem map_ok (f : α → β) (a : α) : f <$> (Except.ok a : Except ε α) = .ok (f a) := rfl

@[simp] theorem map_error (f : α → β) (err : ε) :
    f <$> (Except.error err : Except ε α) = .error err := rfl

end Outcomes

/-- An error without the path that it may name. -/
def EvalError.pathless (err : EvalError) : EvalError := err.mapPath fun _ => ""

theorem EvalError.pathless_mapPath (f : String → String) (err : EvalError) :
    (err.mapPath f).pathless = err.pathless := by
  cases err <;> rfl

namespace Recorded

variable {α β : Type}

/-- What a computation comes to: its value, or its error without a path. -/
def verdict : Recorded α → Except EvalError α
  | .error err => .error err.pathless
  | .ok (a, _) => .ok a

@[simp] theorem verdict_pure (a : α) : (pure a : Recorded α).verdict = .ok a := rfl

theorem exists_of_verdict_ok {x : Recorded α} {a : α} (h : x.verdict = .ok a) :
    ∃ steps, x = .ok (a, steps) := by
  rcases x with err | ⟨b, steps⟩
  · cases h
  · cases h
    exact ⟨steps, rfl⟩

theorem exists_of_verdict_error {x : Recorded α} {err : EvalError} (h : x.verdict = .error err) :
    ∃ err', x = .error err' ∧ err'.pathless = err := by
  rcases x with err' | ⟨a, steps⟩
  · cases h
    exact ⟨err', rfl, rfl⟩
  · cases h

@[simp] theorem verdict_mapPath (f : String → String) (x : Recorded α) :
    (x.mapPath f).verdict = x.verdict := by
  rcases x with err | ⟨a, steps⟩
  · exact congrArg Except.error (EvalError.pathless_mapPath f err)
  · rfl

/-- **The verdict of a sequence is the sequence of the verdicts.** -/
@[simp] theorem verdict_bind (x : Recorded α) (next : α → Recorded β) :
    (x >>= next).verdict = x.verdict >>= fun a => (next a).verdict := by
  change (andThen x next).verdict = _
  rcases x with err | ⟨a, before⟩
  · rfl
  · simp only [andThen]
    change _ = (next a).verdict
    rcases next a with err | ⟨b, after⟩ <;> rfl

end Recorded

namespace Value

/-- **What an expression comes to in a context**: its value, or its error without a path. -/
def verdict (e context : Value) : Except EvalError Value :=
  match evaluate e context with
  | .error err => .error err.pathless
  | .ok outcome => .ok outcome.result

theorem verdict_eq_ok_iff {e context v : Value} :
    e.verdict context = .ok v ↔ ∃ trace, evaluate e context = .ok ⟨v, trace⟩ := by
  rw [verdict]
  rcases evaluate e context with err | ⟨result, trace⟩
  · exact ⟨nofun, nofun⟩
  · constructor
    · intro h
      cases h
      exact ⟨trace, rfl⟩
    · rintro ⟨_, h⟩
      cases h
      rfl

/-- **It comes to the same everywhere.** -/
@[simp] theorem verdict_run (e context : Value) (path : String) :
    (e.run ⟨context, path⟩).verdict = e.verdict context := by
  rw [e.relocates context (carries_rebase rootPath path), Recorded.verdict_mapPath, verdict,
    evaluate]
  rcases e.run ⟨context, rootPath⟩ with err | ⟨v, steps⟩ <;> rfl

theorem exists_run_of_verdict {e context v : Value} (h : e.verdict context = .ok v)
    (path : String) : ∃ steps, e.run ⟨context, path⟩ = .ok (v, steps) :=
  Recorded.exists_of_verdict_ok ((verdict_run e context path).trans h)

/-- **What a node comes to** is what its operator gives. -/
theorem verdict_node (operator : Operator) (items : List Value) (context : Value) :
    (operator.node items).verdict context = Applied.result <$>
      (operator.apply (Value.array items).asArguments ⟨context, rootPath⟩).verdict := by
  rw [← verdict_run _ context rootPath, Operator.node, Operator.run_node, Operator.runNode]
  rcases operator.apply (Value.array items).asArguments ⟨context, rootPath⟩ with
    err | ⟨applied, children⟩ <;> rfl

end Value

end DecisionRules
