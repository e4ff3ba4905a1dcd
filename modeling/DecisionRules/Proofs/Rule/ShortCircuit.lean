import DecisionRules.Proofs.Rule.Congruence

/-!
# Proofs/Rule/ShortCircuit — nothing past the decision can be seen

An operator that stops early runs its arguments up to the one that decides.  `Retouched` replaces,
anywhere in an expression and as often as one likes, what its evaluation in a context does not get
to: by any values at all, well-built or not, and by any number of them.  The evaluation stays as it
is, the trace included.  Where the replacement happens the operator stops before it; everywhere
around it nothing can be told apart (`Retouched.indistinguishable`).

A quantifier evaluates the whole of its sequence, so what can be replaced there is not part of an
expression but of a value: the elements behind the one that decides
(`Rule.scanElements_of_decides`).
-/

namespace DecisionRules

/-! ## What an evaluation does not get to -/

/-- An expression has a value in a context, which counts as true or does not. -/
def Value.ComesTo (e context : Value) (truth : Bool) : Prop :=
  ∃ outcome, evaluate e context = .ok outcome ∧ outcome.result.truthy = truth

/-- Two chains of conditions take the same course in a context: up to the first condition that comes
to true they differ in nothing but the branches that are passed over, and behind the branch of that
condition in anything. -/
inductive SameCourse (context : Value) : List Value → List Value → Prop
  | same (items : List Value) : SameCourse context items items
  | taken {condition branch : Value} {rest rest' : List Value}
    (holds : condition.ComesTo context true) :
    SameCourse context (condition :: branch :: rest) (condition :: branch :: rest')
  | passed {condition branch branch' : Value} {rest rest' : List Value}
    (fails : condition.ComesTo context false) (goes : SameCourse context rest rest') :
    SameCourse context (condition :: branch :: rest) (condition :: branch' :: rest')

/-- The node of a quantifier. -/
def Quantifier.node (q : Quantifier) (sequence predicate : Value) : Value :=
  .object [((Operator.quantify q).name, .array [sequence, predicate])]

/-- An expression with some of what its evaluation in a context does not get to replaced. -/
inductive Retouched : Value → Value → Value → Prop
  | refl (c e : Value) : Retouched c e e
  | trans {c e f g : Value} (first : Retouched c e f) (second : Retouched c f g) : Retouched c e g
  /-- Behind an argument that comes to false. -/
  | conjunction {c decisive : Value} {front rest rest' : List Value} (mem : decisive ∈ front)
    (fails : decisive.ComesTo c false) :
    Retouched c (.object [("and", .array (front ++ rest))])
      (.object [("and", .array (front ++ rest'))])
  /-- Behind an argument that comes to true. -/
  | disjunction {c decisive : Value} {front rest rest' : List Value} (mem : decisive ∈ front)
    (holds : decisive.ComesTo c true) :
    Retouched c (.object [("or", .array (front ++ rest))])
      (.object [("or", .array (front ++ rest'))])
  /-- The branches that are passed over, and what stands behind the one that is taken. -/
  | branches {c : Value} {items items' : List Value} (course : SameCourse c items items') :
    Retouched c (.object [("if", .array items)]) (.object [("if", .array items')])
  /-- What stands in for a value that is there. -/
  | standIn {c found : Value} {path : String} {rest rest' : List Value}
    (resolves : c.resolve path = some found) :
    Retouched c (.object [("var", .array (.string path :: rest))])
      (.object [("var", .array (.string path :: rest'))])
  /-- What stands behind what stands in. -/
  | surplus {c standIn : Value} {path : String} {rest rest' : List Value} :
    Retouched c (.object [("var", .array (.string path :: standIn :: rest))])
      (.object [("var", .array (.string path :: standIn :: rest'))])
  /-- In an item of an array. -/
  | item {c e e' : Value} (front back : List Value) (inner : Retouched c e e') :
    Retouched c (.array (front ++ e :: back)) (.array (front ++ e' :: back))
  /-- In what is given to an operator, of whatever name. -/
  | argument {c argument argument' : Value} {name : String}
    (scope : ∀ q, Operator.ofName? name ≠ some (.quantify q))
    (inner : Retouched c argument argument') :
    Retouched c (.object [(name, argument)]) (.object [(name, argument')])
  /-- In the sequence of a quantifier. -/
  | sequence {c s s' : Value} (q : Quantifier) (p : Value) (inner : Retouched c s s') :
    Retouched c (q.node s p) (q.node s' p)
  /-- In the predicate of a quantifier, where no element that it comes to gets to. -/
  | predicate {c p p' : Value} (q : Quantifier) (s : Value)
    (inner : ∀ outcome elements, evaluate s c = .ok outcome →
      Rule.elements? outcome.result = some elements → ∀ k item, elements[k]? = some item →
        q.Reaches p c elements k → Retouched (Rule.bindItem c item k) p p') :
    Retouched c (q.node s p) (q.node s p')

/-! ## The operators that stop early -/

theorem Value.ComesTo.truthy_eq {e c v : Value} {truth : Bool} {path : String}
    {steps : List TraceStep} (h : e.ComesTo c truth) (hrun : e.run ⟨c, path⟩ = .ok (v, steps)) :
    v.truthy = truth := by
  obtain ⟨outcome, heval, htruth⟩ := h
  cases heval.symm.trans (Value.evaluate_of_run hrun)
  exact htruth

namespace Rule

variable {c : Value}

/-- **Arguments behind one that decides** are not run. -/
theorem runUntil_of_decisive {stop : Value → Bool} {decisive : Value} {truth : Bool}
    (h : decisive.ComesTo c truth) (hstop : ∀ v : Value, v.truthy = truth → stop v = true)
    (rest rest' : List Value) (path : String) : ∀ (front : List Value) (i : Nat), decisive ∈ front →
      runUntil stop ⟨c, path⟩ i (Value.terms (front ++ rest)) =
        runUntil stop ⟨c, path⟩ i (Value.terms (front ++ rest'))
  | e :: front, i, hmem => by
    simp only [List.cons_append, Value.terms, runUntil, Place.child]
    refine Recorded.bind_congr fun v steps hrun => ?_
    rcases List.mem_cons.mp hmem with rfl | hmem
    · have hdecided := hstop v (h.truthy_eq hrun)
      rw [if_pos hdecided, if_pos hdecided]
    · rw [runUntil_of_decisive h hstop rest rest' path front (i + 1) hmem]

theorem untilDecided_of_decisive {decides : Value → Bool} {decisive : Value} {truth : Bool}
    (operator : Operator) (vacuous : Bool) (h : decisive.ComesTo c truth)
    (hdecides : ∀ v : Value, v.truthy = truth → decides v = true) {front : List Value}
    (hmem : decisive ∈ front) (rest rest' : List Value) (path : String) :
    untilDecided operator decides vacuous (Value.array (front ++ rest)).asArguments ⟨c, path⟩ =
      untilDecided operator decides vacuous (Value.array (front ++ rest')).asArguments
        ⟨c, path⟩ := by
  rw [untilDecided, untilDecided, Value.asList_array, Value.asList_array, Recorded.pure_bind,
    Recorded.pure_bind, runUntil_of_decisive h hdecides rest rest' path front 0 hmem]

/-- **Chains that take the same course** run the same conditions and the same branch. -/
theorem chooseBranch_of_sameCourse {items items' : List Value} (path : String)
    (h : SameCourse c items items') : ∀ k, chooseBranch ⟨c, path⟩ k (Value.terms items) =
      chooseBranch ⟨c, path⟩ k (Value.terms items') := by
  induction h with
  | same items => exact fun _ => rfl
  | taken holds =>
    intro k
    simp only [Value.terms, chooseBranch, Place.child]
    refine Recorded.bind_congr fun held steps hrun => ?_
    rw [if_pos (holds.truthy_eq hrun), if_pos (holds.truthy_eq hrun)]
  | passed fails _ ih =>
    intro k
    simp only [Value.terms, chooseBranch, Place.child]
    refine Recorded.bind_congr fun held steps hrun => ?_
    have hheld : ¬ held.truthy = true := by
      rw [fails.truthy_eq hrun]
      exact Bool.false_ne_true
    rw [if_neg hheld, if_neg hheld, ih (k + 1)]

theorem ifElse_of_sameCourse {items items' : List Value} (h : SameCourse c items items')
    (path : String) : ifElse (Value.array items).asArguments ⟨c, path⟩ =
      ifElse (Value.array items').asArguments ⟨c, path⟩ := by
  have hempty : (Value.terms items).isEmpty = (Value.terms items').isEmpty := by
    cases h <;> rfl
  rw [ifElse, ifElse, Value.asList_array, Value.asList_array, Recorded.pure_bind,
    Recorded.pure_bind, hempty, chooseBranch_of_sameCourse path h 0]

theorem varTarget_string (path : String) (rest : List Value) :
    varTarget (Value.array (.string path :: rest)).asArguments =
      pure (path, (Value.terms rest).head?) := by
  change (asWrittenString .var "path" (.string path) >>= fun text =>
    pure (text, (Value.terms rest).head?)) = _
  rw [asWrittenString_of_text rfl, Recorded.pure_bind]

/-- **A `var` whose path leads somewhere** looks at nothing else. -/
theorem var_of_resolve {written : String} {found : Value} (h : c.resolve written = some found)
    (rest rest' : List Value) (path : String) :
    var (Value.array (.string written :: rest)).asArguments ⟨c, path⟩ =
      var (Value.array (.string written :: rest')).asArguments ⟨c, path⟩ := by
  simp only [var, varTarget_string, Recorded.pure_bind, h]

end Rule

/-! ## Nothing that is replaced can be seen -/

/-- Two expressions cannot be told apart in a context, neither evaluated by themselves nor as what
stands under the key of a node. -/
structure Indistinguishable (c e e' : Value) : Prop where
  alone : Value.Indistinct c c e e'
  given : ∀ operator, Value.IndistinctArguments operator c c e e'

namespace Indistinguishable

variable {c : Value}

theorem refl (e : Value) : Indistinguishable c e e where
  alone := .refl c e
  given operator := by
    rcases hitems : e.items? with _ | items
    · exact .bare hitems hitems (.refl e) fun _ _ => rfl
    · obtain rfl := Value.eq_array_of_items? hitems
      exact .list (List.forall₂_same.mpr fun e _ => .refl c e)

theorem trans {e f g : Value} (h : Indistinguishable c e f) (h' : Indistinguishable c f g) :
    Indistinguishable c e g :=
  ⟨h.alone.trans h'.alone, fun operator => (h.given operator).trans (h'.given operator)⟩

theorem array {xs ys : List Value} (h : List.Forall₂ (Value.Indistinct c c) xs ys) :
    Indistinguishable c (.array xs) (.array ys) where
  alone := ⟨.array (map_string?_eq h), Value.run_array_congr h⟩
  given _ := .list h

theorem of_objects {xs ys : List (String × Value)}
    (h : ∀ path, (Value.object xs).run ⟨c, path⟩ = (Value.object ys).run ⟨c, path⟩) :
    Indistinguishable c (.object xs) (.object ys) where
  alone := ⟨.object xs ys, h⟩
  given _ := .bare rfl rfl (.object xs ys) fun _ => h

/-- Nodes of one operator that does the same with what they are given. -/
theorem of_apply {name : String} {operator : Operator} {argument argument' : Value}
    (hname : Operator.ofName? name = some operator) (h : ∀ path,
      operator.apply argument.asArguments ⟨c, path⟩ =
        operator.apply argument'.asArguments ⟨c, path⟩) :
    Indistinguishable c (.object [(name, argument)]) (.object [(name, argument')]) :=
  of_objects (Value.run_node_congr fun _ hname' => Option.some.inj (hname.symm.trans hname') ▸ h)

end Indistinguishable

/-- **What is replaced cannot be seen**, neither alone nor by the node around it. -/
theorem Retouched.indistinguishable {c e e' : Value} (h : Retouched c e e') :
    Indistinguishable c e e' := by
  induction h with
  | refl c e => exact .refl e
  | trans _ _ ih ih' => exact ih.trans ih'
  | conjunction mem fails =>
    refine .of_apply rfl (Rule.untilDecided_of_decisive .and true fails (fun v hv => ?_) mem _ _)
    rw [hv]
    rfl
  | disjunction mem holds =>
    exact .of_apply rfl (Rule.untilDecided_of_decisive .or false holds (fun _ hv => hv) mem _ _)
  | branches course => exact .of_apply rfl (Rule.ifElse_of_sameCourse course)
  | standIn resolves => exact .of_apply rfl (Rule.var_of_resolve resolves _ _)
  | surplus =>
    refine .of_apply rfl fun path => ?_
    simp only [Operator.apply, Rule.var, Rule.varTarget_string, Value.terms, List.head?_cons]
  | item front back _ ih =>
    exact .array (List.rel_append (List.forall₂_same.mpr fun e _ => .refl _ e)
      (.cons ih.alone (List.forall₂_same.mpr fun e _ => .refl _ e)))
  | argument scope _ ih =>
    refine .of_objects (Value.run_node_congr fun operator hname => ?_)
    exact Operator.apply_congr (fun q hq => scope q (hq ▸ hname)) (ih.given operator)
      fun _ _ => rfl
  | sequence q p _ ih =>
    exact .of_apply (Operator.ofName?_name (.quantify q))
      (Rule.quantification_congr ih.alone.run fun _ _ _ _ _ _ _ _ _ => rfl)
  | predicate q s _ ih =>
    exact .of_apply (Operator.ofName?_name (.quantify q)) (Rule.quantification_congr (fun _ => rfl)
      fun outcome elements heval helements k item hitem hreaches =>
        (ih outcome elements heval helements k item hitem hreaches).alone.run)

/-! ## What a sequence gives behind the element that decides -/

/-- A predicate has a value in this context that decides. -/
def Quantifier.Decides (q : Quantifier) (predicate context : Value) (answer : Bool) : Prop :=
  ∃ outcome, evaluate predicate context = .ok outcome ∧
    q.decides outcome.result.truthy = some answer

namespace Rule

variable {q : Quantifier} {p c : Value} {answer : Bool}

/-- What a scan records of an element. -/
def scanRecord (i : Nat) (item outcome : Value) : Value :=
  .object [("index", .ofInt i), ("item", item), ("result", outcome)]

/-- The element that decides ends a scan. -/
theorem exists_scanElements_of_decides (path : String) {item : Value} {i : Nat}
    (h : q.Decides p (bindItem c item i) answer) : ∃ record steps, ∀ rest,
      scanElements q p.asTerm ⟨c, path⟩ i (item :: rest) = .ok ((answer, [record]), steps) := by
  obtain ⟨outcome, heval, hdecides⟩ := h
  obtain ⟨steps, hrun⟩ := Value.exists_run_of_evaluate heval
    (Place.child ⟨c, path⟩ (.predicate i)).path
  refine ⟨scanRecord i item outcome.result, steps ++ [], fun rest => Recorded.bind_of_ok hrun ?_⟩
  simp only [hdecides]
  rfl

/-- An element that decides nothing is recorded in front of what comes behind it. -/
theorem exists_scanElements_of_passes (path : String) {item : Value} {i : Nat}
    (h : q.Passes p (bindItem c item i)) : ∃ record first, ∀ rest answer records steps,
      scanElements q p.asTerm ⟨c, path⟩ (i + 1) rest = .ok ((answer, records), steps) →
        scanElements q p.asTerm ⟨c, path⟩ i (item :: rest) =
          .ok ((answer, record :: records), first ++ steps) := by
  obtain ⟨outcome, heval, hdecides⟩ := h
  obtain ⟨first, hrun⟩ := Value.exists_run_of_evaluate heval
    (Place.child ⟨c, path⟩ (.predicate i)).path
  refine ⟨scanRecord i item outcome.result, first, fun rest answer records steps hscan =>
    Recorded.bind_of_ok hrun ?_⟩
  simp only [hdecides]
  rw [← List.append_nil steps]
  exact Recorded.bind_of_ok hscan rfl

/-- **A scan ends at the element that decides**, whatever comes behind it. -/
theorem scanElements_of_decides (path : String) {item : Value} {before : List Value} : ∀ {i : Nat},
    (∀ j e, before[j]? = some e → q.Passes p (bindItem c e (i + j))) →
      q.Decides p (bindItem c item (i + before.length)) answer →
        ∃ records steps, records.length = before.length + 1 ∧ ∀ rest,
          scanElements q p.asTerm ⟨c, path⟩ i (before ++ item :: rest) =
            .ok ((answer, records), steps) := by
  induction before with
  | nil =>
    intro i _ hlast
    obtain ⟨record, steps, hscan⟩ := exists_scanElements_of_decides path hlast
    exact ⟨[record], steps, rfl, hscan⟩
  | cons e before ih =>
    intro i hpasses hlast
    obtain ⟨record, first, hscan⟩ := exists_scanElements_of_passes path (hpasses 0 e rfl)
    obtain ⟨records, steps, hlength, hmore⟩ := ih (i := i + 1)
      (fun j e he => by
        rw [Nat.add_assoc, Nat.add_comm 1 j]
        exact hpasses (j + 1) e he)
      (by rwa [Nat.add_assoc, Nat.add_comm 1])
    exact ⟨record :: records, first ++ steps, congrArg Nat.succ hlength,
      fun rest => hscan _ _ _ _ (hmore rest)⟩

/-- A quantifier whose scan succeeds gives one step, with the steps of the sequence and then those
of the scan below it. -/
theorem run_quantifierNode {s v : Value} {elements records : List Value} {path : String}
    {own steps : List TraceStep} (hs : s.run (Place.child ⟨c, path⟩ .sequence) = .ok (v, own))
    (helements : elements? v = some elements)
    (hscan : scanElements q p.asTerm ⟨c, path⟩ 0 elements = .ok ((answer, records), steps)) :
    (q.node s p).run ⟨c, path⟩ = .ok (.bool answer, [⟨path, (Operator.quantify q).name,
      .bool answer, some (.array records), own ++ steps⟩]) := by
  have happly : (Operator.quantify q).apply (Value.array [s, p]).asArguments ⟨c, path⟩ =
      .ok (⟨.bool answer, .array records⟩, own ++ steps) := by
    rw [Operator.apply, quantification, Value.asPair_array, Recorded.pure_bind]
    refine Recorded.bind_of_ok hs ?_
    have hpure : Recorded.ofOption (.invalidArguments (.quantify q) (.notIterable v))
        (elements? v) = pure elements := by
      rw [helements]
      rfl
    rw [hpure, Recorded.pure_bind, ← List.append_nil steps]
    exact Recorded.bind_of_ok hscan rfl
  exact Operator.run_node_of_ok happly

end Rule

/-- **Nothing past the decision can be seen.**

Replace what the evaluation of an expression in a context does not get to, wherever that is in the
expression: the evaluation, with its whole trace, stays as it is.

And let the predicate of a quantifier decide nothing on some elements and then decide on one.
Whatever two sequences give behind these elements, and however they come to it, the quantifier has
the same answer on both, with the same records of just these elements, and behind the steps of its
sequence it has the same steps. -/
theorem evaluate_blind_past_decision :
    (∀ c e e', Retouched c e e' → evaluate e c = evaluate e' c) ∧
    ∀ (q : Quantifier) (c s s' p : Value) (outcome outcome' : Evaluation) (before : List Value)
      (item : Value) (rest rest' : List Value) (answer : Bool),
      evaluate s c = .ok outcome → Rule.elements? outcome.result = some (before ++ item :: rest) →
      evaluate s' c = .ok outcome' →
      Rule.elements? outcome'.result = some (before ++ item :: rest') →
      q.Reaches p c before before.length →
      q.Decides p (Rule.bindItem c item before.length) answer →
        ∀ path, ∃ records own own' steps,
          let step (children : List TraceStep) : TraceStep :=
            ⟨path, (Operator.quantify q).name, .bool answer, some (.array records), children⟩
          records.length = before.length + 1 ∧
          s.run (Place.child ⟨c, path⟩ .sequence) = .ok (outcome.result, own) ∧
          s'.run (Place.child ⟨c, path⟩ .sequence) = .ok (outcome'.result, own') ∧
          (q.node s p).run ⟨c, path⟩ = .ok (.bool answer, [step (own ++ steps)]) ∧
          (q.node s' p).run ⟨c, path⟩ = .ok (.bool answer, [step (own' ++ steps)]) := by
  refine ⟨fun c e e' h => ?_, ?_⟩
  · rw [evaluate, evaluate, h.indistinguishable.alone.run]
  · intro q c s s' p outcome outcome' before item rest rest' answer hs helements hs' helements'
      hreaches hdecides path
    obtain ⟨own, hrun⟩ := Value.exists_run_of_evaluate hs (Place.child ⟨c, path⟩ .sequence).path
    obtain ⟨own', hrun'⟩ := Value.exists_run_of_evaluate hs' (Place.child ⟨c, path⟩ .sequence).path
    obtain ⟨records, steps, hlength, hscan⟩ := Rule.scanElements_of_decides path (i := 0)
      (fun j e he => by
        rw [Nat.zero_add]
        exact hreaches j (List.getElem?_eq_some_iff.mp he).1 e he)
      (by rwa [Nat.zero_add])
    exact ⟨records, own, own', steps, hlength, hrun, hrun',
      Rule.run_quantifierNode hrun helements (hscan rest),
      Rule.run_quantifierNode hrun' helements' (hscan rest')⟩

/-- A conjunction, a chain and a `var`, one in another, with malformed nodes put where none of them
looks; and two sequences that differ behind the second element, which decides. -/
theorem evaluate_blind_past_decision_malformed :
    let c : Value := .object [("k", .string "there")]
    let broken : Value := .object [("no such operator", .null)]
    let e : Value := .object [("if", .array [.object [("and", .array [.bool false, .bool true])],
      .string "passed over", .object [("var", .array [.string "k", .string "not needed"])]])]
    let e' : Value := .object [("if", .array [
      .object [("and", .array [.bool false, broken, broken])], .object [],
      .object [("var", .array [.string "k", broken, .null])]])]
    let s : Value := .array [.bool false, .string "x", .object [("!", .array [.null])]]
    let s' : Value := .array [.bool false, .string "x"]
    let p : Value := .object [("var", .string "item")]
    Retouched c e e' ∧ (evaluate e c).isOk = true ∧ evaluate e c = evaluate e' c ∧
      ∃ payload own own' steps,
        (Quantifier.any.node s p).run ⟨c, "$"⟩ = .ok (.bool true,
          [⟨"$", "bl_any", .bool true, payload, own ++ steps⟩]) ∧
        (Quantifier.any.node s' p).run ⟨c, "$"⟩ = .ok (.bool true,
          [⟨"$", "bl_any", .bool true, payload, own' ++ steps⟩]) ∧
        own.length = 1 ∧ own'.length = 0 := by
  intro c broken e e' s s' p
  obtain ⟨hblind, hscans⟩ := evaluate_blind_past_decision
  have hfalse : (Value.object [("and", .array [.bool false, .bool true])]).ComesTo c false :=
    ⟨_, rfl, rfl⟩
  have hcourse : Retouched c e (.object [("if", .array
      [.object [("and", .array [.bool false, .bool true])], .object [],
        .object [("var", .array [.string "k", .string "not needed"])]])]) :=
    .branches (.passed hfalse (.same _))
  have hcondition : Retouched c (.object [("and", .array [.bool false, .bool true])])
      (.object [("and", .array [.bool false, broken, broken])]) :=
    @Retouched.conjunction c (.bool false) [.bool false] _ _ List.mem_cons_self ⟨_, rfl, rfl⟩
  have hstandIn : Retouched c (.object [("var", .array [.string "k", .string "not needed"])])
      (.object [("var", .array [.string "k", broken, .null])]) :=
    .standIn rfl
  have hif : ∀ q, Operator.ofName? "if" ≠ some (.quantify q) := by
    intro q
    cases q <;> decide
  have hretouched : Retouched c e e' := by
    refine hcourse.trans (.argument hif ?_)
    exact (Retouched.item [] _ hcondition).trans (.item [_, _] [] hstandIn)
  have hreaches : Quantifier.any.Reaches p c [.bool false] 1 := by
    intro j hj before hmem
    obtain rfl : j = 0 := by omega
    cases hmem
    exact ⟨_, rfl, rfl⟩
  refine ⟨hretouched, rfl, hblind c e e' hretouched, ?_⟩
  obtain ⟨records, own, own', steps, -, hown, hown', hstep, hstep'⟩ :=
    hscans .any c s s' p _ _ [.bool false] (.string "x") [.bool true] [] true rfl rfl rfl rfl
      hreaches ⟨_, rfl, rfl⟩ "$"
  refine ⟨_, own, own', steps, hstep, hstep', ?_, ?_⟩
  · cases hown
    rfl
  · cases hown'
    rfl

end DecisionRules
