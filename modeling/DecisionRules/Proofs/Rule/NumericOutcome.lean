import Mathlib.Data.List.Forall2
import DecisionRules.Proofs.Rule.Explanation
import DecisionRules.Proofs.Rule.Verdict

/-!
# Proofs/Rule/NumericOutcome — what becomes of a node that computes with numbers

Arithmetic, comparisons and extrema treat their arguments alike.  These must be an array; they are
run in order, up to the first that has no value or whose value is no number; and what is computed
from the numbers is computed last.  So an argument that fails hides whatever stands behind it, too
few arguments are reported only if each of them is a number, and a zero divisor only if nothing else
is wrong.

`Operator.NumericOutcome` lists the cases, with what becomes of the node in each.  No two of them
leave different outcomes possible, and there are no others: it holds of the outcome of the node and
of nothing else (`numericOutcome_iff`).
-/

namespace DecisionRules

namespace Recorded

variable {α β : Type}

@[simp] theorem outcome_pure (a : α) : (pure a : Recorded α).outcome = .ok a := rfl

/-- The outcome of a sequence is that of the sequence of the outcomes. -/
@[simp] theorem outcome_bind (x : Recorded α) (next : α → Recorded β) :
    (x >>= next).outcome = x.outcome >>= fun a => (next a).outcome := by
  change (andThen x next).outcome = _
  rcases x with err | ⟨a, before⟩
  · rfl
  · simp only [andThen]
    change _ = (next a).outcome
    rcases next a with err | ⟨b, after⟩ <;> rfl

/-- A value is what a computation comes to just if it is its outcome. -/
theorem verdict_eq_ok_iff {x : Recorded α} {a : α} : x.verdict = .ok a ↔ x.outcome = .ok a := by
  rcases x with err | ⟨b, steps⟩
  · constructor <;> intro h <;> cases h
  · exact Iff.rfl

end Recorded

/-! ## Computing from numbers -/

/-- How many numbers an operator needs, if it computes from numbers. -/
def Operator.fewestNumbers? : Operator → Option Nat
  | .add | .multiply => some 0
  | .subtract | .extremum _ => some 1
  | .divide | .compare _ => some 2
  | _ => none

/-- What is wrong with fewer arguments than are needed. -/
def ArgumentFault.fewerThan (needed : Nat) : ArgumentFault :=
  if needed < 2 then .noArgument else .fewerThanTwo

/-- What an operator computes from numbers, of which it needs at least `fewest`. -/
inductive Operator.Computes (operator : Operator) (fewest : Nat) (numbers : List Float) :
    Except EvalError Value → Prop
  | tooFew (h : numbers.length < fewest) :
    operator.Computes fewest numbers (.error (.invalidArguments operator (.fewerThan fewest)))
  /-- A number after the first is zero, of either sign. -/
  | zeroDivisor {d : Float} (h : fewest ≤ numbers.length) (hdivide : operator = .divide)
    (hmem : d ∈ numbers.tail) (hzero : (d == 0) = true) :
    operator.Computes fewest numbers (.error .divisionByZero)
  /-- The result that follows from the numbers. -/
  | result {v : Value} (h : fewest ≤ numbers.length)
    (hnonzero : operator = .divide → ∀ d ∈ numbers.tail, (d == 0) = false)
    (hresult : operator.Explains (numbersPayload numbers) v) :
    operator.Computes fewest numbers (.ok v)

namespace Operator.Computes

variable {operator : Operator} {fewest : Nat} {numbers : List Float}
  {outcome outcome' : Except EvalError Value}

/-- **One thing is computed** from the numbers. -/
theorem unique (h : operator.Computes fewest numbers outcome)
    (h' : operator.Computes fewest numbers outcome') : outcome = outcome' := by
  cases h with
  | tooFew hfew =>
    cases h' with
    | tooFew => rfl
    | zeroDivisor henough => exact absurd hfew (Nat.not_lt.mpr henough)
    | result henough => exact absurd hfew (Nat.not_lt.mpr henough)
  | zeroDivisor henough hdivide hmem hzero =>
    cases h' with
    | tooFew hfew => exact absurd hfew (Nat.not_lt.mpr henough)
    | zeroDivisor => rfl
    | result _ hnonzero => exact absurd (hnonzero hdivide _ hmem) (by simp [hzero])
  | result henough hnonzero hresult =>
    cases h' with
    | tooFew hfew => exact absurd hfew (Nat.not_lt.mpr henough)
    | zeroDivisor _ hdivide hmem hzero => exact absurd (hnonzero hdivide _ hmem) (by simp [hzero])
    | result _ _ hresult' => rw [hresult.result_eq hresult']

/-- Operators other than division have no divisors. -/
theorem of_ne_divide {v : Value} (hdivide : operator ≠ .divide) (h : fewest ≤ numbers.length)
    (hresult : operator.Explains (numbersPayload numbers) v) :
    operator.Computes fewest numbers (.ok v) :=
  .result h (fun hoperator => absurd hoperator hdivide) hresult

end Operator.Computes

namespace Rule

/-- **A division fails** at a divisor that is zero. -/
theorem divideBy_eq_error {err : EvalError} : ∀ {divisors : List Float} {x : Float},
    divideBy x divisors = .error err → err = .divisionByZero ∧ ∃ d ∈ divisors, (d == 0) = true
  | [], _, h => by cases h
  | d :: rest, x, h => by
    rw [divideBy] at h
    split at h
    · rename_i hzero
      cases h
      exact ⟨rfl, d, List.mem_cons_self, hzero⟩
    · obtain ⟨rfl, d', hmem, hzero⟩ := divideBy_eq_error h
      exact ⟨rfl, d', List.mem_cons_of_mem d hmem, hzero⟩

theorem computes_quotient (numbers : List Float) :
    Operator.divide.Computes 2 numbers (quotient numbers) := by
  rcases numbers with _ | ⟨x, _ | ⟨y, rest⟩⟩
  · exact .tooFew (by simp)
  · exact .tooFew (by simp)
  · have henough : 2 ≤ (x :: y :: rest).length := by simp
    rw [quotient]
    rcases hdivided : divideBy x (y :: rest) with err | z
    · obtain ⟨rfl, d, hmem, hzero⟩ := divideBy_eq_error hdivided
      exact .zeroDivisor henough rfl hmem hzero
    · obtain ⟨rfl, hnonzero⟩ := divideBy_eq_ok hdivided
      exact .result henough (fun _ => hnonzero) (.divide x y hnonzero)

theorem computes_comparison (c : Comparison) (numbers : List Float) :
    (Operator.compare c).Computes 2 numbers (comparison c numbers) := by
  by_cases hfew : numbers.length < 2
  · rw [comparison, if_pos hfew]
    exact .tooFew hfew
  · have hcompared : comparison c numbers = .ok (.bool (holdsAlong (holds c) numbers)) :=
      if_neg hfew
    rw [hcompared]
    exact .of_ne_divide Operator.noConfusion (Nat.not_lt.mp hfew) (explains_of_comparison hcompared)

theorem computes_difference (numbers : List Float) :
    Operator.subtract.Computes 1 numbers (difference numbers) := by
  rcases numbers with _ | ⟨x, _ | ⟨y, rest⟩⟩
  · exact .tooFew Nat.one_pos
  · exact .of_ne_divide Operator.noConfusion (Nat.le_refl 1) (.negate x)
  · exact .of_ne_divide Operator.noConfusion (by simp) (.subtract x y rest)

theorem computes_extremum (m : Extremum) (numbers : List Float) :
    (Operator.extremum m).Computes 1 numbers (extremum m numbers) := by
  rcases numbers with _ | ⟨x, rest⟩
  · exact .tooFew Nat.one_pos
  · exact .of_ne_divide Operator.noConfusion (by simp) (.extremum m x rest)

end Rule

open Rule

/-- **An operator on numbers** runs its arguments as numbers, and computes from these. -/
theorem Operator.exists_apply_eq_onNumbers {operator : Operator} {fewest : Nat}
    (h : operator.fewestNumbers? = some fewest) : ∃ compute,
      operator.apply = onNumbers operator compute ∧
        ∀ numbers, operator.Computes fewest numbers (compute numbers) := by
  cases operator with
  | add =>
    cases h
    exact ⟨sum, rfl, fun numbers =>
      .of_ne_divide Operator.noConfusion (Nat.zero_le _) (.add numbers)⟩
  | multiply =>
    cases h
    exact ⟨product, rfl, fun numbers =>
      .of_ne_divide Operator.noConfusion (Nat.zero_le _) (.multiply numbers)⟩
  | subtract =>
    cases h
    exact ⟨difference, rfl, computes_difference⟩
  | extremum m =>
    cases h
    exact ⟨Rule.extremum m, rfl, computes_extremum m⟩
  | divide =>
    cases h
    exact ⟨quotient, rfl, computes_quotient⟩
  | compare c =>
    cases h
    exact ⟨comparison c, rfl, computes_comparison c⟩
  | _ => cases h

/-! ## Running arguments as numbers -/

/-- Expressions come to these numbers in a context. -/
def Value.ComeToNumbers (context : Value) : List Value → List Float → Prop :=
  List.Forall₂ fun e x => e.verdict context = .ok (.number x)

/-- What an expression comes to, it comes to at any place. -/
theorem Value.outcome_run_eq_ok_iff (e : Value) {v : Value} (place : Place) :
    (e.run place).outcome = .ok v ↔ e.verdict place.context = .ok v := by
  rw [← e.verdict_run place.context place.path, Recorded.verdict_eq_ok_iff]

namespace Rule

variable {place : Place} {operator : Operator}

/-- The first of several arguments is run, and must be a number. -/
theorem outcome_runNumbers_cons (e : Value) (rest : List Value) (i : Nat) :
    (runNumbers operator place i (Value.terms (e :: rest))).outcome =
      (e.run (place.child (.argument i))).outcome >>= fun v => (asNumber operator v).outcome >>=
        fun x => (x :: ·) <$> (runNumbers operator place (i + 1) (Value.terms rest)).outcome := by
  simp only [Value.terms, runNumbers, Recorded.outcome_bind, Recorded.outcome_pure]
  rfl

/-- **What is behind a number is run next.** -/
theorem outcome_runNumbers_append {front : List Value} {numbers : List Float}
    (h : Value.ComeToNumbers place.context front numbers) (rest : List Value) (i : Nat) :
    (runNumbers operator place i (Value.terms (front ++ rest))).outcome =
      (numbers ++ ·) <$>
        (runNumbers operator place (i + front.length) (Value.terms rest)).outcome := by
  induction h generalizing i with
  | nil => exact (id_map _).symm
  | @cons e x front numbers he _ ih =>
    have hrun := (e.outcome_run_eq_ok_iff (place.child (.argument i))).mpr he
    have hnumber : (asNumber operator (.number x)).outcome = .ok x := rfl
    rw [List.cons_append, outcome_runNumbers_cons, hrun, ok_bind, hnumber, ok_bind, ih,
      List.length_cons, Nat.add_assoc, Nat.add_comm 1]
    rcases (runNumbers operator place (i + (front.length + 1)) (Value.terms rest)).outcome with
      err | more <;> rfl

/-- **Arguments that all come to numbers** are all run. -/
theorem outcome_runNumbers {items : List Value} {numbers : List Float}
    (h : Value.ComeToNumbers place.context items numbers) :
    (runNumbers operator place 0 (Value.terms items)).outcome = .ok numbers := by
  simpa [Value.terms, runNumbers] using outcome_runNumbers_append h [] 0

/-- **Arguments are run up to the first that is no number**, if there is one. -/
theorem exists_comeToNumbers_or_first (c : Value) (items : List Value) :
    (∃ numbers, Value.ComeToNumbers c items numbers) ∨
      ∃ front numbers e rest, items = front ++ e :: rest ∧ Value.ComeToNumbers c front numbers ∧
        ∀ x, e.verdict c ≠ .ok (.number x) := by
  induction items with
  | nil => exact .inl ⟨[], .nil⟩
  | cons e rest ih =>
    by_cases he : ∃ x, e.verdict c = .ok (.number x)
    · obtain ⟨x, hx⟩ := he
      rcases ih with ⟨numbers, hnumbers⟩ | ⟨front, numbers, e', rest', rfl, hfront, he'⟩
      · exact .inl ⟨x :: numbers, .cons hx hnumbers⟩
      · exact .inr ⟨e :: front, x :: numbers, e', rest', rfl, .cons hx hfront, he'⟩
    · exact .inr ⟨[], [], e, rest, rfl, .nil, fun x hx => he ⟨x, hx⟩⟩

end Rule

/-! ## The outcome of a node -/

/-- **What becomes of a node** with an operator that computes from numbers, of which it needs at
least `fewest`. -/
inductive Operator.NumericOutcome (operator : Operator) (fewest : Nat) (place : Place) :
    (argument : Value) → Except EvalError Value → Prop
  | notArray {argument : Value} (h : argument.items? = none) :
    operator.NumericOutcome fewest place argument (.error (.invalidArguments operator .notArray))
  /-- The first argument that does not come to a number fails, in its own way. -/
  | fails {front : List Value} {numbers : List Float} {e : Value} {err : EvalError}
    (rest : List Value) (hfront : Value.ComeToNumbers place.context front numbers)
    (h : (e.run (place.child (.argument front.length))).outcome = .error err) :
    operator.NumericOutcome fewest place (.array (front ++ e :: rest)) (.error err)
  /-- The first argument that does not come to a number comes to another value; the error tells its
  type and its text. -/
  | notNumber {front : List Value} {numbers : List Float} {e v : Value}
    (rest : List Value) (hfront : Value.ComeToNumbers place.context front numbers)
    (h : e.verdict place.context = .ok v) (hv : v.number? = none) :
    operator.NumericOutcome fewest place (.array (front ++ e :: rest))
      (.error (.notNumeric operator v))
  /-- All arguments come to numbers. -/
  | computes {items : List Value} {numbers : List Float} {outcome : Except EvalError Value}
    (hitems : Value.ComeToNumbers place.context items numbers)
    (h : operator.Computes fewest numbers outcome) :
    operator.NumericOutcome fewest place (.array items) outcome

namespace Rule

variable {place : Place} {operator : Operator} {fewest : Nat}
  {compute : List Float → Except EvalError Value}

theorem asNumber_of_number?_eq_none {v : Value} (h : v.number? = none) :
    asNumber operator v = Recorded.fail (.notNumeric operator v) := by
  cases v with
  | number x => cases h
  | _ => rfl

theorem outcome_onNumbers_array (items : List Value) :
    Applied.result <$> (onNumbers operator compute (Value.array items).asArguments place).outcome =
      (runNumbers operator place 0 (Value.terms items)).outcome >>= compute := by
  rw [onNumbers, Value.asList_array, Recorded.pure_bind, Recorded.outcome_bind]
  rcases (runNumbers operator place 0 (Value.terms items)).outcome with err | numbers
  · rfl
  · simp only [ok_bind]
    rcases compute numbers with err | v <;> rfl

/-- **The cases are right**: the node comes to what is listed. -/
theorem outcome_of_numericOutcome {argument : Value} {outcome : Except EvalError Value}
    (hcompute : ∀ numbers, operator.Computes fewest numbers (compute numbers))
    (h : operator.NumericOutcome fewest place argument outcome) :
    Applied.result <$> (onNumbers operator compute argument.asArguments place).outcome =
      outcome := by
  cases h with
  | notArray hbare =>
    rw [Value.asArguments_bare hbare]
    rfl
  | fails rest hfront hrun =>
    rw [outcome_onNumbers_array, outcome_runNumbers_append hfront, outcome_runNumbers_cons,
      Nat.zero_add, hrun]
    rfl
  | @notNumber front numbers e v rest hfront he hv =>
    have hrun := (e.outcome_run_eq_ok_iff (place.child (.argument front.length))).mpr he
    rw [outcome_onNumbers_array, outcome_runNumbers_append hfront, outcome_runNumbers_cons,
      Nat.zero_add, hrun, ok_bind, asNumber_of_number?_eq_none hv]
    rfl
  | @computes items numbers _ hitems h =>
    rw [outcome_onNumbers_array, outcome_runNumbers hitems, ok_bind]
    exact (hcompute numbers).unique h

/-- **There are no other cases.** -/
theorem exists_numericOutcome
    (hcompute : ∀ numbers, operator.Computes fewest numbers (compute numbers)) (place : Place)
    (argument : Value) :
    ∃ outcome, operator.NumericOutcome fewest place argument outcome := by
  rcases hargument : argument.items? with _ | items
  · exact ⟨_, .notArray hargument⟩
  · obtain rfl : argument = .array items := by
      cases argument <;> cases hargument
      rfl
    rcases exists_comeToNumbers_or_first place.context items with
      ⟨numbers, hnumbers⟩ | ⟨front, numbers, e, rest, rfl, hfront, he⟩
    · exact ⟨_, .computes hnumbers (hcompute numbers)⟩
    · rcases hrun : (e.run (place.child (.argument front.length))).outcome with err | v
      · exact ⟨_, .fails rest hfront hrun⟩
      · have hv := (e.outcome_run_eq_ok_iff _).mp hrun
        refine ⟨_, .notNumber rest hfront hv ?_⟩
        cases v with
        | number x => exact absurd hv (he x)
        | _ => rfl

end Rule

/-- What an operator on numbers may give: a truth value if it compares them, else a number. -/
def Operator.MayGive : Operator → Value → Prop
  | .compare _, v => ∃ b, v = .bool b
  | _, v => ∃ x, v = .number x

theorem Operator.Explains.mayGive {operator : Operator} {fewest : Nat} {payload v : Value}
    (h : operator.Explains payload v) (hnumeric : operator.fewestNumbers? = some fewest) :
    operator.MayGive v := by
  cases h with
  | compare => exact ⟨_, rfl⟩
  | add => exact ⟨_, rfl⟩
  | negate => exact ⟨_, rfl⟩
  | subtract => exact ⟨_, rfl⟩
  | multiply => exact ⟨_, rfl⟩
  | divide => exact ⟨_, rfl⟩
  | extremum => exact ⟨_, rfl⟩
  | _ => cases hnumeric

/-- A node that applies an operator comes to what the operator gives. -/
theorem Operator.outcome_run (operator : Operator) (argument : Value) (place : Place) :
    ((Value.object [(operator.name, argument)]).run place).outcome =
      Applied.result <$> (operator.apply argument.asArguments place).outcome := by
  rw [Operator.run_node, Operator.runNode]
  rcases operator.apply argument.asArguments place with err | ⟨applied, children⟩ <;> rfl

/-- **A node whose arguments all come to numbers** evaluates to what is computed from them. -/
theorem Operator.exists_evaluate_of_comeToNumbers {operator : Operator}
    {compute : List Float → Except EvalError Value} {c v : Value} {args : List Value}
    {numbers : List Float} (happly : operator.apply = onNumbers operator compute)
    (hargs : Value.ComeToNumbers c args numbers) (hv : compute numbers = .ok v) :
    ∃ trace, evaluate (operator.node args) c = .ok ⟨v, trace⟩ := by
  have hrun : ((operator.node args).run ⟨c, rootPath⟩).outcome = .ok v := by
    rw [node, outcome_run, happly, outcome_onNumbers_array, outcome_runNumbers hargs, ok_bind, hv]
  exact Value.verdict_eq_ok_iff.mp ((Value.outcome_run_eq_ok_iff _ _).mp hrun)

/-- **What becomes of a node that computes with numbers**, wherever it stands — an evaluation starts
at the root — and whatever its argument is: exactly what is listed.  If it comes to a value, that is
a truth value where the operator compares, and a number where it does not. -/
theorem numericOutcome_iff {operator : Operator} {fewest : Nat}
    (h : operator.fewestNumbers? = some fewest) (argument : Value) (place : Place) :
    (∀ outcome, ((Value.object [(operator.name, argument)]).run place).outcome = outcome ↔
      operator.NumericOutcome fewest place argument outcome) ∧
    ∀ v, ((Value.object [(operator.name, argument)]).run place).outcome = .ok v →
      operator.MayGive v := by
  obtain ⟨compute, happly, hcompute⟩ := Operator.exists_apply_eq_onNumbers h
  obtain ⟨outcome, houtcome⟩ := exists_numericOutcome hcompute place argument
  have hrun := outcome_of_numericOutcome hcompute houtcome
  rw [← happly, ← Operator.outcome_run] at hrun
  refine ⟨fun outcome' => ⟨?_, fun houtcome' => ?_⟩, fun v hv => ?_⟩
  · rintro rfl
    rwa [hrun]
  · rw [Operator.outcome_run, happly]
    exact outcome_of_numericOutcome hcompute houtcome'
  · obtain rfl : outcome = .ok v := hrun.symm.trans hv
    cases houtcome with
    | computes _ hcomputes =>
      cases hcomputes with
      | result _ _ hresult => exact hresult.mayGive h

/-- A divisor that is no number counts before one that is zero, and an unknown operator behind both
does not count. -/
theorem numericOutcome_iff_divide :
    let place : Place := ⟨.emptyObject, rootPath⟩
    let items : List Value := [.number 1, .number 0] ++ [.bool true, .object [("unknown", .null)]]
    Operator.divide.fewestNumbers? = some 2 ∧
      ((Value.object [(Operator.divide.name, .array items)]).run place).outcome =
        .error (.notNumeric .divide (.bool true)) := by
  intro place items
  have hneeds : Operator.divide.fewestNumbers? = some 2 := rfl
  have hfront : Value.ComeToNumbers place.context [.number 1, .number 0] [1, 0] :=
    .cons rfl (.cons rfl .nil)
  have hnext : (Value.bool true).verdict place.context = .ok (.bool true) := rfl
  have hcase : Operator.divide.NumericOutcome 2 place (.array items)
    (.error (.notNumeric .divide (.bool true))) := .notNumber _ hfront hnext rfl
  exact ⟨hneeds, ((numericOutcome_iff hneeds (.array items) place).1 _).mpr hcase⟩

end DecisionRules
