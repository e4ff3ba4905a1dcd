import DecisionRules.Proofs.Rule.OperatorScript

/-!
# Proofs/Rule/Expression — evaluation by the moves into an expression

An expression is a literal, an array, a node, or an object that is no node.  Evaluating an array is
a script like that of an operator, with the items for arguments, so an induction over the moves into
an expression (`Value.moveInduction`) has two cases that do anything.

The first use of it: an error in how a node is built is always that of an object the evaluation was
led to, and names the path to it (`Value.run_structural`).
-/

namespace DecisionRules

namespace Value

/-- An expression that stands for itself. -/
def IsLiteral : Value → Prop
  | .array _ | .object _ => False
  | _ => True

/-- An expression is a literal, an array, a node, or an object that is no node. -/
@[elab_as_elim] theorem expressionCases {motive : Value → Prop}
    (literal : ∀ e, e.IsLiteral → motive e) (array : ∀ items, motive (.array items))
    (node : ∀ name argument, motive (.object [(name, argument)]))
    (malformed : ∀ entries, entries.length ≠ 1 → motive (.object entries)) (e : Value) :
    motive e := by
  rcases e with _ | _ | _ | _ | items | entries
  case array => exact array items
  case object =>
    rcases entries with _ | ⟨⟨name, argument⟩, _ | ⟨second, rest⟩⟩
    · exact malformed _ (by simp)
    · exact node name argument
    · exact malformed _ (by simp)
  all_goals exact literal _ trivial

/-! ## Moves lead inwards -/

theorem mem_of_pick? {operator : Operator} {role : Role} {arguments : List Value} {e : Value}
    (h : operator.pick? arguments role = some e) : e ∈ arguments := by
  unfold Operator.pick? at h
  split at h
  case h_4 =>
    split at h
    · exact List.mem_of_getLast? h
    · cases h
  case h_11 => cases h
  all_goals exact List.mem_of_getElem? h

/-- What a move leads to is smaller. -/
theorem sizeOf_sub? {e inner : Value} {m : Move} (h : e.sub? m = some inner) :
    sizeOf inner < sizeOf e := by
  unfold sub? at h
  split at h
  · have := List.sizeOf_lt_of_mem (List.mem_of_getElem? h)
    simp only [Value.array.sizeOf_spec]
    omega
  · rename_i name argument role
    obtain ⟨operator, -, hpart⟩ := Option.bind_eq_some_iff.mp h
    have hle : sizeOf inner ≤ sizeOf argument := by
      unfold Operator.part? at hpart
      split at hpart
      · have := List.sizeOf_lt_of_mem (mem_of_pick? hpart)
        simp only [Value.array.sizeOf_spec]
        omega
      · split at hpart
        · cases hpart
          exact Nat.le_refl _
        · cases hpart
    simp only [Value.object.sizeOf_spec, List.cons.sizeOf_spec, Prod.mk.sizeOf_spec]
    omega
  · cases h

/-- **Induction over the moves into an expression.** -/
@[elab_as_elim] theorem moveInduction {motive : Value → Prop}
    (h : ∀ e, (∀ m inner, e.sub? m = some inner → motive inner) → motive e) (e : Value) :
    motive e :=
  h e fun _ inner _ => moveInduction h inner
  termination_by sizeOf e
  decreasing_by exact sizeOf_sub? ‹_›

/-! ## Evaluation, case by case -/

theorem run_literal {e : Value} (h : e.IsLiteral) (place : Place) : e.run place = pure e := by
  rcases e with _ | _ | _ | _ | _ | _
  case array => exact h.elim
  case object => exact h.elim
  all_goals rfl

theorem run_array (items : List Value) (place : Place) :
    (Value.array items).run place =
      runItems items 0 place >>= fun values => pure (.array values) := rfl

theorem run_node (name : String) (argument : Value) (place : Place) :
    (Value.object [(name, argument)]).run place = runNamed name argument.asArguments place := by
  rcases argument with _ | _ | _ | _ | _ | _ <;> rfl

theorem run_malformed {entries : List (String × Value)} (h : entries.length ≠ 1) (place : Place) :
    (Value.object entries).run place =
      Recorded.fail (.malformedNode place.path entries.length) := by
  rcases entries with _ | ⟨⟨name, argument⟩, _ | ⟨second, rest⟩⟩
  · rfl
  · exact absurd rfl h
  · rcases argument with _ | _ | _ | _ | _ | _ <;> rfl

theorem item_inj (i j : Nat) (h : Move.item i = Move.item j) : i = j := by
  simpa using h

theorem script_runItems {sub? : Move → Option Value} (context : Value) :
    ∀ (items : List Value) (i : Nat), StandFrom sub? .item i items →
      Script sub? (MovesFrom .item i) fun path => runItems items i ⟨context, path⟩
  | [], _, _ => .gives _
  | e :: rest, i, h => by
    refine Script.runs context movesFrom_self h.head fun v => ?_
    refine Script.step item_inj (script_runItems context rest (i + 1) h.tail) fun more => ?_
    exact .gives _

/-- **Evaluating an array is a script over its items.** -/
theorem script_run_array (items : List Value) (context : Value) :
    Script (Value.array items).sub? (fun _ => True) fun path =>
      (Value.array items).run ⟨context, path⟩ := by
  simp only [run_array]
  refine Script.bind_end ((script_runItems context items 0 fun j e he => ?_).mono
    fun _ _ => trivial) fun values => ?_
  · rw [Nat.zero_add]
    exact he
  · exact .gives _

end Value

/-! ## Nodes -/

theorem Operator.name_of_ofName? {name : String} {operator : Operator}
    (h : Operator.ofName? name = some operator) : operator.name = name := by
  simpa using List.find?_some h

/-- **An operator is found by its name.** -/
theorem Operator.ofName?_name (operator : Operator) :
    Operator.ofName? operator.name = some operator := by
  rcases operator with _ | _ | _ | _ | _ | _ | _ | _ | _ | _ | (_ | _ | _ | _) | _ | _ | _ | _ |
    (_ | _) | (_ | _ | _) <;> rfl

/-- **A node with the name of an operator** is run by that operator. -/
theorem Operator.run_node (operator : Operator) (argument : Value) (place : Place) :
    (Value.object [(operator.name, argument)]).run place =
      operator.runNode argument.asArguments place := by
  rw [Value.run_node, runNamed, Operator.ofName?_name]

/-- The node that applies an operator to a list of arguments. -/
def Operator.node (operator : Operator) (items : List Value) : Value :=
  .object [(operator.name, .array items)]

/-- A node fails with its operator. -/
theorem Operator.run_node_of_error {operator : Operator} {items : List Value} {place : Place}
    {err : EvalError} (h : operator.apply (Value.array items).asArguments place = .error err) :
    (operator.node items).run place = .error err := by
  rw [Operator.node, Operator.run_node, Operator.runNode, h]
  rfl

/-- A node whose operator succeeds gives its result, in one step of its own. -/
theorem Operator.run_node_of_ok {operator : Operator} {items : List Value} {place : Place}
    {applied : Applied} {children : List TraceStep}
    (h : operator.apply (Value.array items).asArguments place = .ok (applied, children)) :
    (operator.node items).run place = .ok (applied.result,
      [⟨place.path, operator.name, applied.result, some applied.payload, children⟩]) := by
  rw [Operator.node, Operator.run_node, Operator.runNode, h]
  rfl

/-- The moves into a node with a known operator. -/
theorem Rule.inNode {name : String} {operator : Operator}
    (h : Operator.ofName? name = some operator) (argument : Value) :
    Rule.InNode (Value.object [(name, argument)]).sub? operator argument := fun role => by
  simp only [Value.sub?, h, Option.bind_some]

/-- **What a node gives** is what its operator gives, recorded in one step. -/
theorem runNamed_eq_ok {name : String} {arguments : Arguments} {place : Place} {v : Value}
    {steps : List TraceStep} (h : runNamed name arguments place = .ok (v, steps)) :
    ∃ operator payload children, Operator.ofName? name = some operator ∧
      operator.apply arguments place = .ok (⟨v, payload⟩, children) ∧
      steps = [⟨place.path, name, v, some payload, children⟩] := by
  unfold runNamed at h
  split at h
  · rename_i operator hname
    unfold Operator.runNode at h
    split at h
    · cases h
    · rename_i applied children happly
      cases h
      refine ⟨operator, applied.payload, children, hname, happly, ?_⟩
      rw [Operator.name_of_ofName? hname]
  · cases h

/-- **How a node fails**: for want of an operator, or as its operator does. -/
theorem runNamed_eq_error {name : String} {arguments : Arguments} {place : Place} {err : EvalError}
    (h : runNamed name arguments place = .error err) :
    (Operator.ofName? name = none ∧ err = .unsupportedOperator name place.path) ∨
      ∃ operator, Operator.ofName? name = some operator ∧
        operator.apply arguments place = .error err := by
  unfold runNamed at h
  split at h
  · rename_i operator hname
    unfold Operator.runNode at h
    split at h
    · rename_i e happly
      cases h
      exact .inr ⟨operator, hname, happly⟩
    · cases h
  · rename_i hname
    cases h
    exact .inl ⟨hname, rfl⟩

/-! ## Evaluation from the root -/

theorem evaluate_ok_iff {e c : Value} {outcome : Evaluation} : evaluate e c = .ok outcome ↔
    e.run ⟨c, rootPath⟩ = .ok (outcome.result, outcome.trace) := by
  rw [evaluate]
  rcases e.run ⟨c, rootPath⟩ with err | ⟨v, steps⟩
  · exact ⟨nofun, nofun⟩
  · constructor <;> intro h <;> cases h <;> rfl

theorem evaluate_error_iff {e c : Value} {err : EvalError} : evaluate e c = .error err ↔
    e.run ⟨c, rootPath⟩ = .error err := by
  rw [evaluate]
  rcases e.run ⟨c, rootPath⟩ with err' | ⟨v, steps⟩
  · constructor <;> intro h <;> cases h <;> rfl
  · exact ⟨nofun, nofun⟩

/-! ## Where an error in a node comes from -/

/-- **A script fails** by a fault in the arguments, or as one of the sub-expressions that it
runs. -/
theorem Script.error_eq {α : Type} {sub? : Move → Option Value} {left : Move → Prop}
    {x : String → Recorded α} (h : Script sub? left x) {path : String} {err : EvalError}
    (herr : x path = .error err) (hstructural : err.IsStructural) :
    ∃ m inner context, sub? m = some inner ∧
      inner.run (Place.move ⟨context, path⟩ m) = .error err := by
  induction h with
  | gives a => cases herr
  | faults own =>
    cases herr
    exact absurd hstructural own
  | @runs left m e context next _ leads _ ih =>
    rcases Recorded.bind_eq_error herr with hrun | ⟨v, before, -, hnext⟩
    · exact ⟨m, e, context, leads, hrun⟩
    · exact ih v hnext

/-- What is wrong with an object at a path, if it is no node with a registered operator. -/
def Value.fault? : Value → String → Option EvalError
  | .object [(name, _)], path =>
    if (Operator.ofName? name).isSome then none else some (.unsupportedOperator name path)
  | .object entries, path => some (.malformedNode path entries.length)
  | _, _ => none

/-- **An error in a node names the node that has it**: a route leads from the expression to an
object, and the error says what is wrong with that object and where it stands. -/
theorem Value.run_structural (e : Value) : ∀ (place : Place) (err : EvalError),
    e.run place = .error err → err.IsStructural →
      ∃ route inner, e.follow? route = some inner ∧
        inner.fault? (place.path ++ route.text) = some err := by
  induction e using Value.moveInduction with
  | h e ih =>
    intro place err herr hstructural
    -- A script passes the error of a sub-expression on, from one move further in.
    have hscript : ∀ {α : Type} {x : String → Recorded α}, Script e.sub? (fun _ => True) x →
        x place.path = .error err → ∃ route inner, e.follow? route = some inner ∧
          inner.fault? (place.path ++ route.text) = some err := fun hx hpath => by
      obtain ⟨m, inner, context, hsub, hrun⟩ := hx.error_eq hpath hstructural
      obtain ⟨route, found, hfollow, hfault⟩ := ih m inner hsub _ _ hrun hstructural
      refine ⟨m :: route, found, ?_, ?_⟩
      · rw [Value.follow?, hsub]
        exact hfollow
      · rw [Place.path_move, String.append_assoc] at hfault
        exact hfault
    cases e using Value.expressionCases with
    | literal e hliteral =>
      rw [Value.run_literal hliteral] at herr
      cases herr
    | array items => exact hscript (Value.script_run_array items place.context) herr
    | node name argument =>
      rw [Value.run_node] at herr
      rcases runNamed_eq_error herr with ⟨hname, rfl⟩ | ⟨operator, hname, happly⟩
      · refine ⟨[], _, rfl, ?_⟩
        simp [Value.fault?, hname, Route.text]
      · exact hscript (Operator.script_apply (Rule.inNode hname argument) place.context) happly
    | malformed entries hlength =>
      rw [Value.run_malformed hlength] at herr
      cases herr
      refine ⟨[], _, rfl, ?_⟩
      rcases entries with _ | ⟨first, _ | ⟨second, rest⟩⟩
      · simp [Value.fault?, Route.text]
      · exact absurd rfl hlength
      · simp [Value.fault?, Route.text]

end DecisionRules
