import DecisionRules.Proofs.Rule.ConnectiveLaws
import DecisionRules.Proofs.Rule.Explanation
import DecisionRules.Proofs.Rule.ShortCircuit

/-!
# Proofs/Rule/QuantifierDuality — some, none and all

`bl_any` and `bl_none` stop at the same element and answer oppositely, so their scans are the same
computation up to the answer, trace included (`Rule.scanElements_none`).

`bl_all` of a predicate and `bl_none` of its negation stop at the same element and answer alike.
Their traces differ, since a negation leaves a step of its own.  What is left of a scan without its
trace is computed from what the predicate comes to on each element (`Rule.verdictScan`), and there
a negation may be taken out (`Rule.verdictScan_not`).
-/

namespace DecisionRules

/-! ## Failing alike -/

/-- Two quantifiers fail with the same error, or each finds the same fault with its own
arguments. -/
inductive Quantifier.FailAlike (q q' : Quantifier) : EvalError → EvalError → Prop
  | same (err : EvalError) : FailAlike q q' err err
  | named (fault : ArgumentFault) :
    FailAlike q q' (.invalidArguments (.quantify q) fault) (.invalidArguments (.quantify q') fault)

theorem Quantifier.FailAlike.pathless {q q' : Quantifier} {err err' : EvalError}
    (h : q.FailAlike q' err err') : q.FailAlike q' err.pathless err'.pathless := by
  cases h with
  | same => exact .same _
  | named fault => exact .named fault

/-- What a quantifier gives from the root: its answer, in the one step that its node leaves. -/
def Quantifier.answered (q : Quantifier) (answer : Bool) (records : List Value)
    (children : List TraceStep) : Evaluation :=
  ⟨.bool answer,
    [⟨rootPath, (Operator.quantify q).name, .bool answer, some (.array records), children⟩]⟩

namespace Rule

variable {q : Quantifier} {c s p v : Value} {elements : List Value} {path : String}
  {own : List TraceStep} {err : EvalError}

/-! ## From scans to nodes -/

theorem run_quantifierNode_of_sequence_error
    (hs : s.run (Place.child ⟨c, path⟩ .sequence) = .error err) :
    (q.node s p).run ⟨c, path⟩ = .error err := by
  refine Operator.run_node_of_error ?_
  rw [Operator.apply, quantification, Value.asPair_array, Recorded.pure_bind]
  exact Recorded.bind_of_error hs

theorem run_quantifierNode_of_not_iterable
    (hs : s.run (Place.child ⟨c, path⟩ .sequence) = .ok (v, own)) (hv : elements? v = none) :
    (q.node s p).run ⟨c, path⟩ = .error (.invalidArguments (.quantify q) (.notIterable v)) := by
  refine Operator.run_node_of_error ?_
  rw [Operator.apply, quantification, Value.asPair_array, Recorded.pure_bind]
  refine Recorded.bind_of_ok_error hs ?_
  rw [hv]
  rfl

theorem run_quantifierNode_of_scan_error
    (hs : s.run (Place.child ⟨c, path⟩ .sequence) = .ok (v, own))
    (hv : elements? v = some elements)
    (hscan : scanElements q p.asTerm ⟨c, path⟩ 0 elements = .error err) :
    (q.node s p).run ⟨c, path⟩ = .error err := by
  refine Operator.run_node_of_error ?_
  rw [Operator.apply, quantification, Value.asPair_array, Recorded.pure_bind]
  refine Recorded.bind_of_ok_error hs ?_
  rw [hv]
  exact Recorded.bind_of_ok_error rfl (Recorded.bind_of_error hscan)

/-- **Two quantifiers over one sequence** fail alike, or the sequence has elements to scan. -/
theorem failAlike_or_elements (q q' : Quantifier) (c s p p' : Value) :
    (∃ err err', evaluate (q.node s p) c = .error err ∧ evaluate (q'.node s p') c = .error err' ∧
      q.FailAlike q' err err') ∨
    ∃ v own elements, s.run (Place.child ⟨c, rootPath⟩ .sequence) = .ok (v, own) ∧
      elements? v = some elements := by
  rcases hs : s.run (Place.child ⟨c, rootPath⟩ .sequence) with err | ⟨v, own⟩
  · exact .inl ⟨err, err, evaluate_error_iff.mpr (run_quantifierNode_of_sequence_error hs),
      evaluate_error_iff.mpr (run_quantifierNode_of_sequence_error hs), .same err⟩
  · rcases hv : elements? v with _ | elements
    · exact .inl ⟨_, _, evaluate_error_iff.mpr (run_quantifierNode_of_not_iterable hs hv),
        evaluate_error_iff.mpr (run_quantifierNode_of_not_iterable hs hv), .named (.notIterable v)⟩
    · exact .inr ⟨v, own, elements, rfl, hv⟩

/-! ## Some and none -/

/-- **A scan for no element** is a scan for some element with the opposite answer. -/
theorem scanElements_none (predicate : Term) (place : Place) : ∀ (elements : List Value) (i : Nat),
    scanElements .none predicate place i elements =
      scanElements .any predicate place i elements >>= fun seen => pure (!seen.1, seen.2)
  | [], _ => rfl
  | item :: rest, i => by
    rw [scanElements, scanElements, Recorded.bind_assoc]
    refine Recorded.bind_congr fun outcome _ _ => ?_
    cases outcome.truthy with
    | true => rfl
    | false =>
      simp only [Quantifier.decides, scanElements_none predicate place rest (i + 1),
        Recorded.bind_assoc, Recorded.pure_bind]

/-! ## All and none -/

/-- What a scan comes to: its answer, and the elements that it looks at with the outcome for
each. -/
def verdictScan (q : Quantifier) (context predicate : Value) :
    Nat → List Value → Except EvalError (Bool × List (Value × Value))
  | _, [] => .ok (q.exhausted, [])
  | i, item :: rest => do
    let outcome ← predicate.verdict (bindItem context item i)
    match q.decides outcome.truthy with
    | some answer => .ok (answer, [(item, outcome)])
    | none => do
      let (answer, seen) ← verdictScan q context predicate (i + 1) rest
      .ok (answer, (item, outcome) :: seen)

theorem verdict_scanElements (q : Quantifier) (c p : Value) (path : String) :
    ∀ (elements : List Value) (i : Nat),
      (scanElements q p.asTerm ⟨c, path⟩ i elements).verdict =
        (fun seen => (seen.1, scanRecords i seen.2)) <$> verdictScan q c p i elements
  | [], _ => rfl
  | item :: rest, i => by
    simp only [scanElements, verdictScan, Recorded.verdict_bind, Place.child, Value.asTerm,
      Value.verdict_run]
    rcases p.verdict (bindItem c item i) with err | outcome
    · rfl
    · simp only [ok_bind]
      rcases q.decides outcome.truthy with _ | answer
      · simp only [Recorded.verdict_bind]
        rw [← Value.asTerm, verdict_scanElements q c p path rest (i + 1)]
        rcases verdictScan q c p (i + 1) rest with err | seen <;> rfl
      · rfl

/-- **A negation in a scan for no element** makes it a scan for all, which looks at the same
elements. -/
theorem verdictScan_not (c p : Value) : ∀ (elements : List Value) (i : Nat),
    verdictScan .none c (Operator.not.node [p]) i elements =
      (fun seen => (seen.1, seen.2.map fun looked => (looked.1, .bool (!looked.2.truthy)))) <$>
        verdictScan .all c p i elements
  | [], _ => rfl
  | item :: rest, i => by
    rw [verdictScan, verdictScan, verdict_negation]
    rcases p.verdict (bindItem c item i) with err | outcome
    · rfl
    · have hnot : (Value.bool (!outcome.truthy)).truthy = !outcome.truthy := rfl
      simp only [map_ok, ok_bind, hnot]
      cases htruthy : outcome.truthy with
      | false => simp [Quantifier.decides, htruthy]
      | true =>
        simp only [Quantifier.decides, Bool.not_true]
        rw [verdictScan_not c p rest (i + 1)]
        rcases verdictScan .all c p (i + 1) rest with err | seen
        · rfl
        · simp [htruthy]

end Rule

open Rule

/-- **Duality of the quantifiers**, in every context and for every sequence and predicate.

`bl_any` and `bl_none` fail alike, or give opposite answers with the same records and the same steps
below their own.

`bl_all` of a predicate and `bl_none` of its negation fail alike, up to the path that an error
names, or give the same answer, after running the predicate on the same elements: their records
differ in the outcomes, which the one has negated. -/
theorem quantifier_duality (c s p : Value) :
    ((∃ err err', evaluate (Quantifier.any.node s p) c = .error err ∧
        evaluate (Quantifier.none.node s p) c = .error err' ∧
        Quantifier.any.FailAlike .none err err') ∨
      ∃ answer records children,
        evaluate (Quantifier.any.node s p) c =
          .ok (Quantifier.any.answered answer records children) ∧
        evaluate (Quantifier.none.node s p) c =
          .ok (Quantifier.none.answered (!answer) records children)) ∧
    ((∃ err err', evaluate (Quantifier.all.node s p) c = .error err ∧
        evaluate (Quantifier.none.node s (Operator.not.node [p])) c = .error err' ∧
        Quantifier.all.FailAlike .none err.pathless err'.pathless) ∨
      ∃ answer seen children children',
        evaluate (Quantifier.all.node s p) c =
          .ok (Quantifier.all.answered answer (scanRecords 0 seen) children) ∧
        evaluate (Quantifier.none.node s (Operator.not.node [p])) c =
          .ok (Quantifier.none.answered answer (scanRecords 0
            (seen.map fun looked => (looked.1, .bool (!looked.2.truthy)))) children')) := by
  constructor
  · rcases failAlike_or_elements .any .none c s p p with hfail | ⟨v, own, elements, hs, hv⟩
    · exact .inl hfail
    have hnone := scanElements_none p.asTerm ⟨c, rootPath⟩ elements 0
    rcases hany : scanElements .any p.asTerm ⟨c, rootPath⟩ 0 elements with
      err | ⟨⟨answer, records⟩, steps⟩
    · rw [hany] at hnone
      exact .inl ⟨err, err, evaluate_error_iff.mpr (run_quantifierNode_of_scan_error hs hv hany),
        evaluate_error_iff.mpr (run_quantifierNode_of_scan_error hs hv hnone), .same err⟩
    · rw [Recorded.bind_of_ok hany rfl, List.append_nil] at hnone
      exact .inr ⟨answer, records, own ++ steps, evaluate_ok_iff.mpr (run_quantifierNode hs hv hany),
        evaluate_ok_iff.mpr (run_quantifierNode hs hv hnone)⟩
  · rcases failAlike_or_elements .all .none c s p (Operator.not.node [p]) with
      ⟨err, err', hall, hnone, hfail⟩ | ⟨v, own, elements, hs, hv⟩
    · exact .inl ⟨err, err', hall, hnone, hfail.pathless⟩
    have hall := verdict_scanElements .all c p rootPath elements 0
    have hnone := verdict_scanElements .none c (Operator.not.node [p]) rootPath elements 0
    rw [verdictScan_not] at hnone
    rcases hscan : verdictScan .all c p 0 elements with err | ⟨answer, seen⟩ <;>
      rw [hscan] at hall hnone
    · obtain ⟨err₁, hfails, rfl⟩ := Recorded.exists_of_verdict_error hall
      obtain ⟨err₂, hfails', heq⟩ := Recorded.exists_of_verdict_error hnone
      exact .inl ⟨err₁, err₂, evaluate_error_iff.mpr (run_quantifierNode_of_scan_error hs hv hfails),
        evaluate_error_iff.mpr (run_quantifierNode_of_scan_error hs hv hfails'), heq ▸ .same _⟩
    · obtain ⟨steps, hgives⟩ := Recorded.exists_of_verdict_ok hall
      obtain ⟨steps', hgives'⟩ := Recorded.exists_of_verdict_ok hnone
      exact .inr ⟨answer, seen, own ++ steps, own ++ steps',
        evaluate_ok_iff.mpr (run_quantifierNode hs hv hgives),
        evaluate_ok_iff.mpr (run_quantifierNode hs hv hgives')⟩

end DecisionRules
