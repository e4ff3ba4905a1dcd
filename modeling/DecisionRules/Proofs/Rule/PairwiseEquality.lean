import DecisionRules.Proofs.Rule.Verdict
import DecisionRules.Proofs.Rule.WellFormed
import DecisionRules.Proofs.Value.Equivalence

/-!
# Proofs/Rule/PairwiseEquality — comparing with the first is comparing all

`==` compares each argument with the first one only, and `!=` does the same and negates.  As
equality has no sides and is transitive, what equals the first is equal pairwise
(`Rule.all_beq_iff_pairwise`), so nothing depends on which argument comes first.  Where a value does
not equal itself it equals nothing, so that case makes no difference.
-/

namespace DecisionRules

/-- Expressions come to these values in a context. -/
def Value.ComeToValues (context : Value) : List Value → List Value → Prop :=
  List.Forall₂ fun e v => e.verdict context = .ok v

namespace Rule

/-! ## Lists of equal values -/

/-- **What equals the first is pairwise equal.** -/
theorem all_beq_iff_pairwise {first : Value} {rest : List Value}
    (hformed : ∀ v ∈ first :: rest, v.WellFormed) :
    rest.all (· == first) = true ↔ (first :: rest).Pairwise fun v w => (v == w) = true := by
  obtain ⟨hfirst, hrest⟩ := List.forall_mem_cons.mp hformed
  rw [List.all_eq_true, List.pairwise_cons]
  constructor
  · intro h
    have hsame {v : Value} (hv : v ∈ rest) : (first == v) = true :=
      Value.beq_symm (hrest v hv) hfirst (h v hv)
    refine ⟨fun v hv => hsame hv, List.pairwise_of_forall_mem_list fun v hv w hw => ?_⟩
    exact Value.beq_trans (hrest v hv) hfirst (hrest w hw) (h v hv) (hsame hw)
  · rintro ⟨h, -⟩ v hv
    exact Value.beq_symm hfirst (hrest v hv) (h v hv)

/-- **Being pairwise equal does not depend on an order.** -/
theorem pairwise_beq_iff_of_perm {values values' : List Value} (hperm : values'.Perm values)
    (hformed : ∀ v ∈ values, v.WellFormed) :
    (values'.Pairwise fun v w => (v == w) = true) ↔
      values.Pairwise fun v w => (v == w) = true := by
  have hboth {vs : List Value} (h : ∀ v ∈ vs, v.WellFormed) :
      (vs.Pairwise fun v w => (v == w) = true) ↔
        vs.Pairwise fun v w => (v == w) = true ∧ (w == v) = true :=
    List.Pairwise.iff_of_mem fun hv hw =>
      ⟨fun hbeq => ⟨hbeq, Value.beq_symm (h _ hv) (h _ hw) hbeq⟩, And.left⟩
  rw [hboth hformed, hboth fun v hv => hformed v (hperm.mem_iff.mp hv)]
  exact hperm.pairwise_iff And.symm

/-! ## The two nodes -/

section Nodes

variable {c : Value} {args values : List Value}

theorem exists_comeToValues (h : ∀ e ∈ args, ∃ outcome, evaluate e c = .ok outcome) :
    ∃ values, Value.ComeToValues c args values := by
  induction args with
  | nil => exact ⟨[], .nil⟩
  | cons e rest ih =>
    obtain ⟨⟨⟨v, trace⟩, he⟩, hrest⟩ := List.forall_mem_cons.mp h
    obtain ⟨values, hvalues⟩ := ih hrest
    exact ⟨v :: values, .cons (Value.verdict_eq_ok_iff.mpr ⟨trace, he⟩) hvalues⟩

theorem wellFormed_of_comeToValues (h : Value.ComeToValues c args values) (hc : c.WellFormed)
    (hargs : ∀ e ∈ args, e.WellFormed) : ∀ v ∈ values, v.WellFormed := by
  induction h with
  | nil => exact fun _ hmem => absurd hmem List.not_mem_nil
  | cons hv _ ih =>
    obtain ⟨he, hrest⟩ := List.forall_mem_cons.mp hargs
    obtain ⟨trace, heval⟩ := Value.verdict_eq_ok_iff.mp hv
    exact List.forall_mem_cons.mpr ⟨(evaluate_wellFormed he hc heval).1, ih hrest⟩

/-- **Arguments that all have values** are all run. -/
theorem exists_runEach (h : Value.ComeToValues c args values) (path : String) :
    ∀ i, ∃ steps, runEach ⟨c, path⟩ i (Value.terms args) = .ok (values, steps) := by
  induction h with
  | nil => exact fun _ => ⟨[], rfl⟩
  | @cons e v rest values hv _ ih =>
    intro i
    obtain ⟨own, hrun⟩ := Value.exists_run_of_verdict hv (Place.child ⟨c, path⟩ (.argument i)).path
    obtain ⟨steps, hrest⟩ := ih (i + 1)
    exact ⟨_, Recorded.bind_of_ok hrun (Recorded.bind_of_ok hrest rfl)⟩

/-- **The two nodes** run the same arguments and give opposite answers. -/
theorem exists_evaluate_equal (h : Value.ComeToValues c args values) (hargs : 2 ≤ args.length)
    (hformed : ∀ v ∈ values, v.WellFormed) : ∃ (answer : Bool) (children : List TraceStep),
      evaluate (Operator.equal.node args) c = .ok ⟨.bool answer,
        [⟨rootPath, "==", .bool answer, some (.array values), children⟩]⟩ ∧
      evaluate (Operator.notEqual.node args) c = .ok ⟨.bool (!answer),
        [⟨rootPath, "!=", .bool (!answer), some (.array values), children⟩]⟩ ∧
      (answer = true ↔ values.Pairwise fun v w => (v == w) = true) := by
  obtain ⟨children, hrun⟩ := exists_runEach h rootPath 0
  have hlength : 2 ≤ values.length := hargs.trans_eq (List.Forall₂.length_eq h)
  obtain _ | ⟨first, _ | ⟨second, rest⟩⟩ := values
  · exact absurd hlength (Nat.not_succ_le_zero 1)
  · exact absurd hlength (Nat.not_succ_le_self 1)
  have hequal : Operator.equal.apply (Value.array args).asArguments ⟨c, rootPath⟩ =
      .ok (⟨.bool ((second :: rest).all (· == first)), .array (first :: second :: rest)⟩,
        children) := by
    rw [Operator.apply, equal, Value.asList_array, Recorded.pure_bind, ← List.append_nil children]
    exact Recorded.bind_of_ok hrun rfl
  have hnotEqual : Operator.notEqual.apply (Value.array args).asArguments ⟨c, rootPath⟩ =
      .ok (⟨.bool (!(second :: rest).all (· == first)), .array (first :: second :: rest)⟩,
        children) := by
    rw [Operator.apply, notEqual, Value.asList_array, Recorded.pure_bind, List.not_all_eq_any_not,
      ← List.append_nil children]
    exact Recorded.bind_of_ok hrun rfl
  exact ⟨_, children, evaluate_ok_iff.mpr (Operator.run_node_of_ok hequal),
    evaluate_ok_iff.mpr (Operator.run_node_of_ok hnotEqual), all_beq_iff_pairwise hformed⟩

end Nodes

end Rule

open Rule

/-- **Equality is an equivalence but for what is not a number, and `==` compares all pairs.**  On
values whose objects repeat no key, equality is symmetric and transitive, and a value equals itself
exactly if no part of it is the double that is not a number.

Let at least two arguments all evaluate in a context.  Then `==` succeeds and answers whether their
values are pairwise equal, `!=` succeeds with the opposite answer, for the same reason and from the
same steps, and `==` answers the same for the arguments in any other order. -/
theorem equality_laws :
    (∀ v w : Value, v.WellFormed → w.WellFormed → (v == w) = true → (w == v) = true) ∧
    (∀ u v w : Value, u.WellFormed → v.WellFormed → w.WellFormed →
      (u == v) = true → (v == w) = true → (u == w) = true) ∧
    (∀ v : Value, v.WellFormed → ((v == v) = true ↔ v.NanFree)) ∧
    ∀ (c : Value) (args : List Value), c.WellFormed → (∀ e ∈ args, e.WellFormed) →
      2 ≤ args.length → (∀ e ∈ args, ∃ outcome, evaluate e c = .ok outcome) →
      ∃ (values : List Value) (answer : Bool) (children : List TraceStep),
        Value.ComeToValues c args values ∧
        evaluate (Operator.equal.node args) c = .ok ⟨.bool answer,
          [⟨rootPath, "==", .bool answer, some (.array values), children⟩]⟩ ∧
        evaluate (Operator.notEqual.node args) c = .ok ⟨.bool (!answer),
          [⟨rootPath, "!=", .bool (!answer), some (.array values), children⟩]⟩ ∧
        (answer = true ↔ values.Pairwise fun v w => (v == w) = true) ∧
        ∀ args' : List Value, args'.Perm args →
          ∃ trace, evaluate (Operator.equal.node args') c = .ok ⟨.bool answer, trace⟩ := by
  refine ⟨fun _ _ => Value.beq_symm, fun _ _ _ => Value.beq_trans, fun _ => Value.beq_self_iff, ?_⟩
  intro c args hc hargs hlength hevaluate
  obtain ⟨values, hvalues⟩ := exists_comeToValues hevaluate
  have hformed := wellFormed_of_comeToValues hvalues hc hargs
  obtain ⟨answer, children, hequal, hnotEqual, hanswer⟩ :=
    exists_evaluate_equal hvalues hlength hformed
  refine ⟨values, answer, children, hvalues, hequal, hnotEqual, hanswer, fun args' hperm => ?_⟩
  obtain ⟨values', hvalues', hpermuted⟩ := List.perm_comp_forall₂ hperm hvalues
  have hformed' : ∀ v ∈ values', v.WellFormed := fun v hv => hformed v (hpermuted.mem_iff.mp hv)
  have hlength' : 2 ≤ args'.length := hlength.trans_eq hperm.length_eq.symm
  obtain ⟨answer', children', hequal', -, hanswer'⟩ :=
    exists_evaluate_equal hvalues' hlength' hformed'
  have hsame : answer' = answer := by
    rw [Bool.eq_iff_iff, hanswer', hanswer, pairwise_beq_iff_of_perm hpermuted hformed]
  exact ⟨_, hsame ▸ hequal'⟩

/-- Two objects with their keys in opposite orders, one of them compared twice with the other; and
an array that does not equal itself. -/
theorem equality_laws_reordered :
    let v : Value := .object [("a", .null), ("b", .bool true)]
    let w : Value := .object [("b", .bool true), ("a", .null)]
    let c : Value := .object [("v", v), ("w", w)]
    let readV : Value := .object [("var", .string "v")]
    let readW : Value := .object [("var", .string "w")]
    (v == w) = true ∧ (w == v) = true ∧ (v == v) = true ∧
      ¬ (Value.array [.number Float.nan] == .array [.number Float.nan]) = true ∧
      ∃ children trace,
        evaluate (Operator.equal.node [readV, readW, readV]) c = .ok ⟨.bool true,
          [⟨rootPath, "==", .bool true, some (.array [v, w, v]), children⟩]⟩ ∧
        evaluate (Operator.notEqual.node [readV, readW, readV]) c = .ok ⟨.bool false,
          [⟨rootPath, "!=", .bool false, some (.array [v, w, v]), children⟩]⟩ ∧
        evaluate (Operator.equal.node [readW, readV, readV]) c = .ok ⟨.bool true, trace⟩ := by
  intro v w c readV readW
  obtain ⟨hsymm, htrans, hrefl, hnodes⟩ := equality_laws
  have hv : v.WellFormed := by simp [v, Value.WellFormed, Value.WellFormedEntries]
  have hw : w.WellFormed := by simp [w, Value.WellFormed, Value.WellFormedEntries]
  have hc : c.WellFormed := by simp [c, v, w, Value.WellFormed, Value.WellFormedEntries]
  have hread (key : String) : (Value.object [("var", .string key)]).WellFormed := by
    simp [Value.WellFormed, Value.WellFormedEntries]
  have hnan : (Value.array [.number Float.nan]).WellFormed := by
    simp [Value.WellFormed, Value.WellFormedItems]
  have hvw : (v == w) = true := rfl
  have hwv : (w == v) = true := hsymm v w hv hw hvw
  have hevaluate : ∀ e ∈ [readV, readW, readV], ∃ outcome, evaluate e c = .ok outcome := by
    simp only [List.forall_mem_cons]
    exact ⟨⟨_, rfl⟩, ⟨_, rfl⟩, ⟨_, rfl⟩, fun _ hmem => absurd hmem List.not_mem_nil⟩
  obtain ⟨values, answer, children, -, hequal, hnotEqual, -, hpermuted⟩ :=
    hnodes c [readV, readW, readV] hc (by simp [readV, readW, hread]) (by decide) hevaluate
  obtain ⟨trace, hswapped⟩ := hpermuted [readW, readV, readV] (List.Perm.swap _ _ _)
  cases hequal
  exact ⟨hvw, hwv, htrans v w v hv hw hv hvw hwv,
    fun h => Bool.noConfusion ((hrefl _ hnan).mp h [.position 0] Float.nan (.item rfl (.self _))),
    _, trace, rfl, hnotEqual, hswapped⟩

end DecisionRules
