import DecisionRules.Rule.EvalError
import DecisionRules.Rule.Trace

/-!
# Rule/Recorded — computations that leave a trace

A `Recorded α` either fails, and then leaves nothing, or gives an `α` together with the steps taken
on the way, in order. Running one after the other joins their steps.
-/

namespace DecisionRules

/-- A computation that fails or gives a result and the steps that led to it. -/
def Recorded (α : Type) : Type := Except EvalError (α × List TraceStep)

namespace Recorded

variable {α β : Type}

/-- A result that takes no step. -/
def ofValue (a : α) : Recorded α := Except.ok (a, [])

/-- A failure. -/
def fail (e : EvalError) : Recorded α := Except.error e

/-- A result with the steps that led to it. -/
def withSteps (a : α) (steps : List TraceStep) : Recorded α := Except.ok (a, steps)

/-- One computation after another, steps in order; the first failure ends both. -/
def andThen (x : Recorded α) (f : α → Recorded β) : Recorded β :=
  match x with
  | .error e => .error e
  | .ok (a, before) =>
    match f a with
    | .error e => .error e
    | .ok (b, after) => .ok (b, before ++ after)

instance : Monad Recorded where
  pure := ofValue
  bind := andThen

/-! ### Laws

Joining steps is associative with the empty list as its unit, so sequences may be regrouped.  The
two inversions say where the outcome of a sequence comes from. -/

@[simp] theorem pure_bind (a : α) (f : α → Recorded β) : ((pure a : Recorded α) >>= f) = f a := by
  change andThen (ofValue a) f = f a
  simp only [andThen, ofValue]
  rcases f a with e | ⟨b, after⟩ <;> rfl

@[simp] theorem fail_bind (e : EvalError) (f : α → Recorded β) :
    ((fail e : Recorded α) >>= f) = fail e := rfl

theorem bind_assoc {γ : Type} (x : Recorded α) (f : α → Recorded β) (g : β → Recorded γ) :
    ((x >>= f) >>= g) = x >>= fun a => f a >>= g := by
  change andThen (andThen x f) g = andThen x fun a => andThen (f a) g
  rcases x with e | ⟨a, s⟩
  · rfl
  · simp only [andThen]
    rcases f a with e | ⟨b, t⟩
    · rfl
    · dsimp only
      rcases g b with e | ⟨c, u⟩
      · rfl
      · exact congrArg (fun steps => Except.ok (c, steps)) (List.append_assoc s t u)

/-- Where both parts of a sequence succeed, so does the sequence. -/
theorem bind_of_ok {x : Recorded α} {f : α → Recorded β} {a : α} {b : β}
    {before after : List TraceStep} (hx : x = .ok (a, before)) (hf : f a = .ok (b, after)) :
    (x >>= f) = .ok (b, before ++ after) := by
  subst hx
  change andThen (.ok (a, before)) f = _
  simp only [andThen, hf]
  rfl

/-- A sequence fails with its first part. -/
theorem bind_of_error {x : Recorded α} {f : α → Recorded β} {e : EvalError} (hx : x = .error e) :
    (x >>= f) = .error e := by
  subst hx
  rfl

/-- A sequence whose first part succeeds fails with its second. -/
theorem bind_of_ok_error {x : Recorded α} {f : α → Recorded β} {a : α} {before : List TraceStep}
    {e : EvalError} (hx : x = .ok (a, before)) (hf : f a = .error e) : (x >>= f) = .error e := by
  subst hx
  change andThen (.ok (a, before)) f = _
  simp only [andThen, hf]
  rfl

/-- **A sequence that succeeds** has the steps of its first part and then those of its second. -/
theorem bind_eq_ok {x : Recorded α} {f : α → Recorded β} {b : β} {steps : List TraceStep}
    (h : (x >>= f) = .ok (b, steps)) :
    ∃ a before after, x = .ok (a, before) ∧ f a = .ok (b, after) ∧ steps = before ++ after := by
  change andThen x f = _ at h
  unfold andThen at h
  split at h
  · cases h
  · rename_i a before
    split at h
    · cases h
    · rename_i hf
      cases h
      exact ⟨a, before, _, rfl, hf, rfl⟩

/-- **A sequence that fails** does so in its first part, or in its second after the first. -/
theorem bind_eq_error {x : Recorded α} {f : α → Recorded β} {e : EvalError}
    (h : (x >>= f) = .error e) :
    x = .error e ∨ ∃ a before, x = .ok (a, before) ∧ f a = .error e := by
  change andThen x f = _ at h
  unfold andThen at h
  split at h
  · cases h
    exact .inl rfl
  · rename_i a before
    split at h
    · rename_i hf
      cases h
      exact .inr ⟨a, before, rfl, hf⟩
    · cases h

/-- Sequences that start alike are the same if they go on alike from whatever that gives. -/
theorem bind_congr {x : Recorded α} {f g : α → Recorded β}
    (h : ∀ a steps, x = .ok (a, steps) → f a = g a) : (x >>= f) = x >>= g := by
  change andThen x f = andThen x g
  rcases x with err | ⟨a, steps⟩
  · rfl
  · simp only [andThen, h a steps rfl]

/-- An optional value, or a failure in its place. -/
def ofOption (e : EvalError) : Option α → Recorded α
  | some a => ofValue a
  | none => fail e

theorem eq_some_of_ofOption {err : EvalError} {a? : Option α} {a : α} {steps : List TraceStep}
    (h : ofOption err a? = .ok (a, steps)) : a? = some a := by
  cases a? <;> cases h
  rfl

/-- The result without its steps. -/
def outcome (x : Recorded α) : Except EvalError α :=
  match x with
  | .error e => .error e
  | .ok (a, _) => .ok a

/-- The steps, none if the computation failed. -/
def steps (x : Recorded α) : List TraceStep :=
  match x with
  | .error _ => []
  | .ok (_, s) => s

end Recorded

end DecisionRules
