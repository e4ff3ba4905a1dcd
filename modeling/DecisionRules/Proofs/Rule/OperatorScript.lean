import DecisionRules.Proofs.Rule.Script

/-!
# Proofs/Rule/OperatorScript — every operator is played from a script

`Operator.script_apply`: whatever an operator does with the arguments of its node is a script over
the moves into that node.  There is one lemma for each loop over arguments, by induction on the
arguments that are left, and one for each operator.
-/

namespace DecisionRules

/-! ## Arguments as they are written -/

/-- A sub-expression as a term. -/
def Value.asTerm (e : Value) : Term := ⟨e, e.run⟩

/-- What stands under the key of a node, as the operator sees it. -/
def Value.asArguments : Value → Arguments
  | .array items => .list (Value.terms items)
  | bare => .bare bare.asTerm

theorem Value.asList_array (operator : Operator) (items : List Value) :
    (Value.array items).asArguments.asList operator = pure (Value.terms items) := rfl

theorem Value.asPair_array (operator : Operator) (fault : ArgumentFault) (x y : Value) :
    (Value.array [x, y]).asArguments.asPair operator fault = pure (x.asTerm, y.asTerm) := rfl

namespace Script

variable {α : Type} {sub? : Move → Option Value} {left : Move → Prop}

/-- A script for an operator that takes only a list of arguments. -/
theorem ofList {operator : Operator} {argument : Value} {f : List Term → String → Recorded α}
    (h : ∀ items, argument = .array items → Script sub? left (f (Value.terms items))) :
    Script sub? left fun path =>
      argument.asArguments.asList operator >>= fun terms => f terms path := by
  rcases argument with _ | _ | _ | _ | items | _
  case array =>
    simp only [Value.asList_array, Recorded.pure_bind]
    exact h items rfl
  all_goals exact .faults id

/-- A script for an operator that takes exactly two arguments. -/
theorem ofPair {operator : Operator} {fault : ArgumentFault} {argument : Value}
    {f : Term × Term → String → Recorded α}
    (h : ∀ first second, argument = .array [first, second] →
      Script sub? left (f (first.asTerm, second.asTerm))) :
    Script sub? left fun path =>
      argument.asArguments.asPair operator fault >>= fun terms => f terms path := by
  rcases argument with _ | _ | _ | _ | items | _
  case array =>
    rcases items with _ | ⟨first, _ | ⟨second, _ | ⟨third, rest⟩⟩⟩
    case cons.cons.nil =>
      simp only [Value.asPair_array, Recorded.pure_bind]
      exact h first second rfl
    all_goals exact .faults id
  all_goals exact .faults id

end Script

namespace Rule

variable {sub? : Move → Option Value} {context : Value}

/-! ## Loops over arguments -/

/-- The move to the argument at a position. -/
abbrev toArgument (i : Nat) : Move := .part (.argument i)

theorem toArgument_inj (i j : Nat) (h : toArgument i = toArgument j) : i = j := by
  simpa using h

theorem script_runUntil (stop : Value → Bool) :
    ∀ (items : List Value) (i : Nat), StandFrom sub? toArgument i items →
      Script sub? (MovesFrom toArgument i) fun path =>
        runUntil stop ⟨context, path⟩ i (Value.terms items)
  | [], _, _ => .gives _
  | e :: rest, i, h => by
    refine Script.runs context movesFrom_self h.head fun v => ?_
    by_cases hv : stop v = true
    · simp only [hv, if_true]
      exact .gives _
    · simp only [hv]
      refine Script.step toArgument_inj (script_runUntil stop rest (i + 1) h.tail) fun more => ?_
      exact .gives _

theorem script_runNumbers (operator : Operator) :
    ∀ (items : List Value) (i : Nat), StandFrom sub? toArgument i items →
      Script sub? (MovesFrom toArgument i) fun path =>
        runNumbers operator ⟨context, path⟩ i (Value.terms items)
  | [], _, _ => .gives _
  | e :: rest, i, h => by
    refine Script.runs context movesFrom_self h.head fun v => ?_
    refine Script.bind_still (Script.asNumber operator v) fun x => ?_
    refine Script.step toArgument_inj (script_runNumbers operator rest (i + 1) h.tail)
      fun more => ?_
    exact .gives _

/-- The moves to the pairs of a chain from one on, and to what stands after them. -/
def BranchesFrom (k : Nat) (m : Move) : Prop :=
  m = .part .fallback ∨ ∃ j, k ≤ j ∧ (m = .part (.condition j) ∨ m = .part (.result j))

/-- The pairs of a chain from one on, and what stands after them, stand where a chain looks for
them. -/
structure StandAsChain (sub? : Move → Option Value) (k : Nat) (items : List Value) : Prop where
  condition : ∀ j e, items[2 * j]? = some e → sub? (.part (.condition (k + j))) = some e
  result : ∀ j e, items[2 * j + 1]? = some e → sub? (.part (.result (k + j))) = some e
  fallback : ∀ e, items.length % 2 = 1 → items.getLast? = some e →
    sub? (.part .fallback) = some e

theorem StandAsChain.tail {k : Nat} {c b : Value} {rest : List Value}
    (h : StandAsChain sub? k (c :: b :: rest)) : StandAsChain sub? (k + 1) rest where
  condition j e he := by
    rw [Nat.add_assoc, Nat.add_comm 1 j]
    exact h.condition (j + 1) e he
  result j e he := by
    rw [Nat.add_assoc, Nat.add_comm 1 j]
    exact h.result (j + 1) e he
  fallback e hodd he := by
    refine h.fallback e (by simp only [List.length_cons]; omega) ?_
    rcases rest with _ | ⟨d, rest⟩
    · simp at hodd
    · simpa [List.getLast?_cons_cons] using he

theorem branchesFrom_succ {k : Nat} {m : Move} (h : BranchesFrom (k + 1) m) :
    BranchesFrom k m ∧ m ≠ .part (.condition k) := by
  rcases h with rfl | ⟨j, hj, rfl | rfl⟩
  · exact ⟨.inl rfl, by simp⟩
  · refine ⟨.inr ⟨j, by omega, .inl rfl⟩, fun heq => ?_⟩
    simp only [Move.part.injEq, Role.condition.injEq] at heq
    omega
  · exact ⟨.inr ⟨j, by omega, .inr rfl⟩, by simp⟩

theorem script_chooseBranch :
    ∀ (items : List Value) (k : Nat), StandAsChain sub? k items →
      Script sub? (BranchesFrom k) fun path =>
        chooseBranch ⟨context, path⟩ k (Value.terms items)
  | [], _, _ => .gives _
  | [e], k, h => by
    refine Script.runs context (.inl rfl) (h.fallback e rfl rfl) fun v => ?_
    exact .gives _
  | c :: b :: rest, k, h => by
    refine Script.runs context (.inr ⟨k, Nat.le_refl k, .inl rfl⟩) (h.condition 0 c rfl)
      fun held => ?_
    by_cases hheld : held.truthy = true
    · simp only [hheld, if_true]
      refine Script.runs context ⟨.inr ⟨k, Nat.le_refl k, .inr rfl⟩, by simp⟩ (h.result 0 b rfl)
        fun v => ?_
      exact .gives _
    · simp only [hheld]
      refine Script.mono (Script.bind_end (script_chooseBranch rest (k + 1) h.tail)
        fun chosen => ?_) fun m => branchesFrom_succ
      exact .gives _

/-- The move to the predicate, for the element at a position. -/
abbrev toPredicate (i : Nat) : Move := .part (.predicate i)

theorem toPredicate_inj (i j : Nat) (h : toPredicate i = toPredicate j) : i = j := by
  simpa using h

theorem script_scanElements (q : Quantifier) {predicate : Value}
    (h : ∀ i, sub? (toPredicate i) = some predicate) :
    ∀ (elements : List Value) (i : Nat),
      Script sub? (MovesFrom toPredicate i) fun path =>
        scanElements q predicate.asTerm ⟨context, path⟩ i elements
  | [], _ => .gives _
  | item :: rest, i => by
    refine Script.runs (bindItem context item i) movesFrom_self (h i) fun outcome => ?_
    rcases q.decides outcome.truthy with _ | answer
    case some => exact .gives _
    case none =>
      refine Script.step toPredicate_inj (script_scanElements q h rest (i + 1)) fun seen => ?_
      exact .gives _

/-- Looking paths up runs nothing. -/
theorem script_presence (operator : Operator) (left : Move → Prop) :
    ∀ keys : List Value, Script sub? left fun _ => presence operator context keys
  | [] => .gives _
  | written :: rest => by
    refine Script.bind_still (Script.asWrittenString operator "key" written) fun path => ?_
    refine Script.bind_still (script_presence operator (fun _ => False) rest) fun counted => ?_
    by_cases hat : context.hasAt path = true
    · simp only [hat, if_true]
      exact .gives _
    · simp only [hat]
      exact .gives _

/-! ## Operators

`InNode` says that the moves into a node are those of its operator; all that is left of an operator
is then which of its arguments it looks at. -/

/-- The moves into a node lead to the arguments of its operator. -/
def InNode (sub? : Move → Option Value) (operator : Operator) (argument : Value) : Prop :=
  ∀ role, sub? (.part role) = operator.part? argument role

theorem InNode.stand {operator : Operator} {items : List Value}
    (h : InNode sub? operator (.array items)) : StandFrom sub? toArgument 0 items :=
  fun j e he => by
    rw [Nat.zero_add, h, Operator.part?, Operator.pick?_argument]
    exact he

theorem script_var {argument : Value} (h : InNode sub? .var argument) :
    Script sub? (fun _ => True) fun path => var argument.asArguments ⟨context, path⟩ := by
  unfold var
  rcases argument with _ | _ | _ | _ | items | _
  case array =>
    rcases items with _ | ⟨first, rest⟩
    · simp only [Value.asArguments, Value.terms, varTarget, Recorded.pure_bind]
      rcases context.resolve "" with _ | found <;> exact .gives _
    · simp only [Value.asArguments, Value.terms, varTarget, Recorded.bind_assoc,
        Recorded.pure_bind]
      refine Script.bind_still (Script.asWrittenString .var "path" first) fun path => ?_
      rcases context.resolve path with _ | found
      · rcases rest with _ | ⟨standIn, rest⟩
        · exact .gives _
        · refine Script.runs context trivial (h .fallback) fun v => ?_
          exact .gives _
      · exact .gives _
  all_goals
    simp only [Value.asArguments, Value.asTerm, varTarget, Recorded.bind_assoc, Recorded.pure_bind]
  case null => rcases context.resolve "" with _ | found <;> exact .gives _
  all_goals
    refine Script.bind_still (Script.asWrittenString .var "path" _) fun path => ?_
    rcases context.resolve path with _ | found <;> exact .gives _

theorem script_untilDecided {operator : Operator} {argument : Value}
    (h : InNode sub? operator argument) (decides : Value → Bool) (vacuous : Bool) :
    Script sub? (fun _ => True) fun path =>
      untilDecided operator decides vacuous argument.asArguments ⟨context, path⟩ := by
  refine Script.ofList fun items hitems => ?_
  subst hitems
  refine Script.bind_end ((script_runUntil decides items 0 h.stand).mono fun _ _ => trivial)
    fun seen => ?_
  exact .gives _

theorem script_negation {argument : Value} (h : InNode sub? .not argument) :
    Script sub? (fun _ => True) fun path => negation argument.asArguments ⟨context, path⟩ := by
  unfold negation
  rcases argument with _ | _ | _ | _ | items | _
  case array =>
    rcases items with _ | ⟨single, _ | ⟨second, rest⟩⟩
    case cons.nil =>
      simp only [Value.asArguments, Value.terms, Recorded.pure_bind]
      refine Script.runs context trivial (h (.argument 0)) fun v => ?_
      exact .gives _
    all_goals exact .faults id
  all_goals
    simp only [Value.asArguments, Value.asTerm, Recorded.pure_bind]
    refine Script.runs context trivial (h (.argument 0)) fun v => ?_
    exact .gives _

theorem script_ifElse {argument : Value} (h : InNode sub? .ifElse argument) :
    Script sub? (fun _ => True) fun path => ifElse argument.asArguments ⟨context, path⟩ := by
  refine Script.ofList fun items hitems => ?_
  subst hitems
  have hchain : StandAsChain sub? 0 items :=
    { condition := fun j e he => by
        rw [Nat.zero_add, h]
        exact he
      result := fun j e he => by
        rw [Nat.zero_add, h]
        exact he
      fallback := fun e hodd he => by
        rw [h]
        simpa [Operator.part?, Operator.pick?, hodd] using he }
  by_cases hempty : (Value.terms items).isEmpty = true
  · simp only [hempty, if_true]
    exact .faults id
  · simp only [hempty]
    refine Script.bind_end ((script_chooseBranch items 0 hchain).mono fun _ _ => trivial)
      fun chosen => ?_
    exact .gives _

theorem script_membership {argument : Value} (h : InNode sub? .membership argument) :
    Script sub? (fun _ => True) fun path => membership argument.asArguments ⟨context, path⟩ := by
  refine Script.ofPair fun needle haystack harguments => ?_
  subst harguments
  refine Script.runs context trivial (h .needle) fun needle => ?_
  refine Script.runs context ⟨trivial, by simp⟩ (h .haystack) fun haystack => ?_
  refine Script.bind_still (Script.ofOption id _) fun found => ?_
  exact .gives _

theorem script_missing (argument : Value) :
    Script sub? (fun _ => True) fun path => missing argument.asArguments ⟨context, path⟩ := by
  refine Script.ofList fun items _ => ?_
  refine Script.bind_still (script_presence .missing (fun _ => False) _) fun counted => ?_
  exact .gives _

theorem script_missingSome {argument : Value} (h : InNode sub? .missingSome argument) :
    Script sub? (fun _ => True) fun path =>
      missingSome argument.asArguments ⟨context, path⟩ := by
  refine Script.ofPair fun threshold keys harguments => ?_
  subst harguments
  refine Script.runs context trivial (h .threshold) fun value => ?_
  refine Script.bind_still (Script.asNumber .missingSome value) fun required => ?_
  refine Script.bind_still (Script.ofOption id _) fun keys => ?_
  refine Script.bind_still (script_presence .missingSome (fun _ => False) keys) fun counted => ?_
  exact .gives _

theorem script_equal {argument : Value} (h : InNode sub? .equal argument) :
    Script sub? (fun _ => True) fun path => equal argument.asArguments ⟨context, path⟩ := by
  refine Script.ofList fun items hitems => ?_
  subst hitems
  refine Script.bind_end ((script_runUntil _ items 0 h.stand).mono fun _ _ => trivial)
    fun seen => ?_
  rcases seen with _ | ⟨first, rest⟩
  · exact .faults id
  · exact .gives _

theorem script_notEqual {argument : Value} (h : InNode sub? .notEqual argument) :
    Script sub? (fun _ => True) fun path => notEqual argument.asArguments ⟨context, path⟩ := by
  refine Script.ofList fun items hitems => ?_
  subst hitems
  refine Script.bind_end ((script_runUntil _ items 0 h.stand).mono fun _ _ => trivial)
    fun seen => ?_
  rcases seen with _ | ⟨first, _ | ⟨second, rest⟩⟩
  · exact .faults id
  · exact .faults id
  · exact .gives _

theorem script_onNumbers {operator : Operator} {argument : Value}
    (h : InNode sub? operator argument) {compute : List Float → Except EvalError Value}
    (own : ∀ numbers e, compute numbers = .error e → ¬ e.IsStructural) :
    Script sub? (fun _ => True) fun path =>
      onNumbers operator compute argument.asArguments ⟨context, path⟩ := by
  refine Script.ofList fun items hitems => ?_
  subst hitems
  refine Script.bind_end ((script_runNumbers operator items 0 h.stand).mono fun _ _ => trivial)
    fun numbers => ?_
  exact Script.ofExcept (own numbers)

theorem script_quantification {q : Quantifier} {argument : Value}
    (h : InNode sub? (.quantify q) argument) :
    Script sub? (fun _ => True) fun path =>
      quantification q argument.asArguments ⟨context, path⟩ := by
  refine Script.ofPair fun sequence predicate harguments => ?_
  subst harguments
  refine Script.runs context trivial (h .sequence) fun found => ?_
  refine Script.bind_still (Script.ofOption id _) fun elements => ?_
  have hpredicate : ∀ i, sub? (toPredicate i) = some predicate := fun i => h (.predicate i)
  refine Script.bind_end ((script_scanElements q hpredicate elements 0).mono fun m hm => ?_)
    fun answer => ?_
  · obtain ⟨j, -, rfl⟩ := hm
    exact ⟨trivial, by simp⟩
  · exact .gives _

/-! ## Faults in computing with numbers

Whatever is computed from numbers fails for want of arguments or by a zero divisor. -/

theorem comparison_own {c : Comparison} (numbers : List Float) (e : EvalError)
    (h : comparison c numbers = .error e) : ¬ e.IsStructural := by
  unfold comparison at h
  split at h <;> cases h
  exact id

theorem sum_own (numbers : List Float) (e : EvalError) (h : sum numbers = .error e) :
    ¬ e.IsStructural := by cases h

theorem product_own (numbers : List Float) (e : EvalError) (h : product numbers = .error e) :
    ¬ e.IsStructural := by cases h

theorem difference_own (numbers : List Float) (e : EvalError)
    (h : difference numbers = .error e) : ¬ e.IsStructural := by
  unfold difference at h
  split at h <;> cases h
  exact id

theorem divideBy_own {e : EvalError} :
    ∀ (divisors : List Float) (x : Float), divideBy x divisors = .error e → ¬ e.IsStructural
  | [], _, h => by cases h
  | divisor :: rest, x, h => by
    unfold divideBy at h
    split at h
    · cases h
      exact id
    · exact divideBy_own rest _ h

theorem quotient_own (numbers : List Float) (e : EvalError)
    (h : quotient numbers = .error e) : ¬ e.IsStructural := by
  rcases numbers with _ | ⟨first, _ | ⟨second, rest⟩⟩
  · cases h
    exact id
  · cases h
    exact id
  · rcases hdivided : divideBy first (second :: rest) with err | x
    · rw [quotient, hdivided] at h
      cases h
      exact divideBy_own _ _ hdivided
    · rw [quotient, hdivided] at h
      cases h

theorem extremum_own {x : Extremum} (numbers : List Float) (e : EvalError)
    (h : extremum x numbers = .error e) : ¬ e.IsStructural := by
  unfold extremum at h
  split at h <;> cases h
  exact id

end Rule

open Rule in
/-- **Every operator is played from a script.** -/
theorem Operator.script_apply {sub? : Move → Option Value} {operator : Operator} {argument : Value}
    (h : InNode sub? operator argument) (context : Value) :
    Script sub? (fun _ => True) fun path =>
      operator.apply argument.asArguments ⟨context, path⟩ := by
  rcases operator with _ | _ | _ | _ | _ | _ | _ | _ | _ | _ | c | _ | _ | _ | _ | x | q
  case var => exact script_var h
  case and => exact script_untilDecided h _ _
  case or => exact script_untilDecided h _ _
  case not => exact script_negation h
  case ifElse => exact script_ifElse h
  case membership => exact script_membership h
  case missing => exact script_missing argument
  case missingSome => exact script_missingSome h
  case equal => exact script_equal h
  case notEqual => exact script_notEqual h
  case compare => exact script_onNumbers h comparison_own
  case add => exact script_onNumbers h sum_own
  case subtract => exact script_onNumbers h difference_own
  case multiply => exact script_onNumbers h product_own
  case divide => exact script_onNumbers h quotient_own
  case extremum => exact script_onNumbers h extremum_own
  case quantify => exact script_quantification h

end DecisionRules
