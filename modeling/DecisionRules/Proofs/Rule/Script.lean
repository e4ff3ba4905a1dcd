import DecisionRules.Proofs.Rule.Route

/-!
# Proofs/Rule/Script — what an operator does, one argument at a time

Every operator is played from a script: it gives a result, finds a fault of its own, or runs one
sub-expression and goes on with its value (`Script`).  What holds of all scripts holds of all
operators, so a fact about evaluation needs no case split over them.

Three things are built into scripts.  A sub-expression is run at the move that leads to it, no move
is made twice, and what is run and in which context depends on the path of the node not at all.
-/

namespace DecisionRules

/-- An error in how a node is built: its keys, or the name of its operator. -/
def EvalError.IsStructural : EvalError → Prop
  | .malformedNode _ _ | .unsupportedOperator _ _ => True
  | _ => False

/-- A computation that waits for the path of its node and that only runs sub-expressions, each at
its own move and at most once: `left` are the moves not made yet. -/
inductive Script {α : Type} (sub? : Move → Option Value) :
    (left : Move → Prop) → (String → Recorded α) → Prop
  /-- The end, with a result. -/
  | gives {left} (a : α) : Script sub? left fun _ => pure a
  /-- The end, with a fault in the arguments. -/
  | faults {left} {e : EvalError} (own : ¬ e.IsStructural) :
    Script sub? left fun _ => Recorded.fail e
  /-- A sub-expression is run in some context, and its value decides what comes next. -/
  | runs {left} {m : Move} {e : Value} (context : Value) {next : Value → String → Recorded α}
    (free : left m) (leads : sub? m = some e)
    (goes : ∀ v, Script sub? (fun m' => left m' ∧ m' ≠ m) (next v)) :
    Script sub? left fun path => e.run (Place.move ⟨context, path⟩ m) >>= fun v => next v path

namespace Script

variable {α β : Type} {sub? : Move → Option Value} {left later : Move → Prop}

/-- More moves may be left than are needed. -/
theorem mono {x : String → Recorded α} (h : Script sub? left x)
    (hle : ∀ m, left m → later m) : Script sub? later x := by
  induction h generalizing later with
  | gives a => exact .gives a
  | faults own => exact .faults own
  | runs context free leads _ ih =>
    exact .runs context (hle _ free) leads fun v => ih v fun m hm => ⟨hle m hm.1, hm.2⟩

/-- **One script after another** is a script, if they have no move in common. -/
theorem bind {x : String → Recorded α} {f : α → String → Recorded β} (hx : Script sub? left x)
    (hf : ∀ a, Script sub? later (f a)) (hdisjoint : ∀ m, left m → ¬ later m) :
    Script sub? (fun m => left m ∨ later m) fun path => x path >>= fun a => f a path := by
  induction hx with
  | gives a =>
    simp only [Recorded.pure_bind]
    exact (hf a).mono fun _ => .inr
  | faults own =>
    simp only [Recorded.fail_bind]
    exact .faults own
  | @runs left m e context next free leads _ ih =>
    simp only [Recorded.bind_assoc]
    refine .runs context (.inl free) leads fun v => ?_
    refine (ih v fun m' hm' => hdisjoint m' hm'.1).mono fun m' hm' => ?_
    rcases hm' with ⟨hm', hne⟩ | hm'
    · exact ⟨.inl hm', hne⟩
    · exact ⟨.inr hm', fun h => hdisjoint m free (h ▸ hm')⟩

/-- What comes before a script without running anything does not change what is left. -/
theorem bind_still {x : String → Recorded α} {f : α → String → Recorded β}
    (hx : Script sub? (fun _ => False) x) (hf : ∀ a, Script sub? left (f a)) :
    Script sub? left fun path => x path >>= fun a => f a path :=
  (hx.bind hf fun _ h => h.elim).mono fun _ h => h.elim False.elim id

/-- What comes after a script without running anything does not change what is left. -/
theorem bind_end {x : String → Recorded α} {f : α → String → Recorded β}
    (hx : Script sub? left x) (hf : ∀ a, Script sub? (fun _ => False) (f a)) :
    Script sub? left fun path => x path >>= fun a => f a path :=
  (hx.bind hf fun _ _ h => h).mono fun _ h => h.elim id False.elim

/-! ## Steps that run nothing -/

theorem ofOption {e : EvalError} (own : ¬ e.IsStructural) (a? : Option α) :
    Script sub? left fun _ => Recorded.ofOption e a? := by
  cases a? with
  | none => exact .faults own
  | some a => exact .gives a

theorem asNumber (operator : Operator) (v : Value) :
    Script sub? left fun _ => asNumber operator v := by
  cases v with
  | number x => exact .gives x
  | _ => exact .faults id

theorem asWrittenString (operator : Operator) (what : String) (written : Value) :
    Script sub? left fun _ => asWrittenString operator what written :=
  ofOption id _

theorem ofExcept {outcome : Except EvalError Value} {payload : Value}
    (own : ∀ e, outcome = .error e → ¬ e.IsStructural) :
    Script sub? left fun _ => match outcome with
      | .ok result => (pure ⟨result, payload⟩ : Recorded Applied)
      | .error e => Recorded.fail e := by
  cases outcome with
  | ok result => exact .gives _
  | error e => exact .faults (own e rfl)

end Script

/-! ## Loops

A loop over a list makes one move for each item, in order: the moves of the loop are those from a
position on, and a step of it leaves those of the rest. -/

/-- The moves from a position on, of those that positions number. -/
def MovesFrom (move : Nat → Move) (i : Nat) (m : Move) : Prop := ∃ j, i ≤ j ∧ m = move j

/-- The items of a list stand where the moves from a position on lead. -/
def StandFrom (sub? : Move → Option Value) (move : Nat → Move) (i : Nat) (items : List Value) :
    Prop :=
  ∀ j e, items[j]? = some e → sub? (move (i + j)) = some e

section Loops

variable {sub? : Move → Option Value} {move : Nat → Move} {i : Nat}

theorem StandFrom.head {e : Value} {rest : List Value} (h : StandFrom sub? move i (e :: rest)) :
    sub? (move i) = some e := h 0 e rfl

theorem StandFrom.tail {e : Value} {rest : List Value} (h : StandFrom sub? move i (e :: rest)) :
    StandFrom sub? move (i + 1) rest := fun j e' he' => by
  rw [Nat.add_assoc, Nat.add_comm 1 j]
  exact h (j + 1) e' he'

theorem movesFrom_self : MovesFrom move i (move i) := ⟨i, Nat.le_refl i, rfl⟩

/-- Behind the move at a position come those from the next one on. -/
theorem movesFrom_succ (hinj : ∀ j k, move j = move k → j = k) {m : Move}
    (h : MovesFrom move (i + 1) m) : MovesFrom move i m ∧ m ≠ move i := by
  obtain ⟨j, hj, rfl⟩ := h
  refine ⟨⟨j, by omega, rfl⟩, fun heq => ?_⟩
  have := hinj j i heq
  omega

/-- **One step of a loop, and the rest of it.** -/
theorem Script.step {α β : Type} (hinj : ∀ j k, move j = move k → j = k) {x : String → Recorded α}
    (hx : Script sub? (MovesFrom move (i + 1)) x) {f : α → String → Recorded β}
    (hf : ∀ a, Script sub? (fun _ => False) (f a)) :
    Script sub? (fun m => MovesFrom move i m ∧ m ≠ move i)
      fun path => x path >>= fun a => f a path :=
  (hx.bind_end hf).mono fun _ => movesFrom_succ hinj

end Loops

end DecisionRules
