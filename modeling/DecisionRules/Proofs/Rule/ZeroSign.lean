import DecisionRules.Proofs.Rule.AkinRuns
import DecisionRules.Proofs.Rule.Expression

/-!
# Proofs/Rule/ZeroSign — the signs of zeros decide nothing

Arithmetic on akin numbers gives akin numbers, and comparisons of them give the same answer.
Division is the one operation that minds the sign of a zero, that of its divisor, and it is not
carried out then (`Rule.divideBy_akin`).

So every operator makes akin results of terms that agree (`Operator.apply_agrees`), and the terms of
akin expressions do agree (`Value.run_agrees`): akin expressions in akin contexts come to akin
values by the same steps, or fail with the same error, up to the signs of zeros (`evaluate_akin`).
-/

namespace DecisionRules

open Recorded (Agree)

namespace Rule

/-! ## Computing with numbers -/

section Numbers

variable {xs ys : List Float}

theorem foldl_akin {f : Float → Float → Float}
    (hf : ∀ {x y x' y'}, Binary64.Akin x y → Binary64.Akin x' y' → Binary64.Akin (f x x') (f y y'))
    (hxs : List.Forall₂ Binary64.Akin xs ys) : ∀ {x y : Float}, Binary64.Akin x y →
      Binary64.Akin (xs.foldl f x) (ys.foldl f y) := by
  induction hxs with
  | nil => exact id
  | cons h' _ ih => exact fun h => ih (hf h h')

theorem holds_eq (r : Comparison) {x y x' y' : Float} (h : Binary64.Akin x y)
    (h' : Binary64.Akin x' y') : holds r x x' = holds r y y' := by
  cases r with
  | greater => exact decide_eq_decide.mpr (h'.lt_iff h)
  | greaterEqual => exact decide_eq_decide.mpr (h'.le_iff h)
  | less => exact decide_eq_decide.mpr (h.lt_iff h')
  | lessEqual => exact decide_eq_decide.mpr (h.le_iff h')

theorem holdsAlong_eq_of_akin (r : Comparison) : ∀ {xs ys : List Float},
    List.Forall₂ Binary64.Akin xs ys → holdsAlong (holds r) xs = holdsAlong (holds r) ys
  | [], _, .nil => rfl
  | [_], _, .cons _ .nil => rfl
  | _ :: _ :: _, _, .cons h (.cons h' hrest) => by
    rw [holdsAlong, holdsAlong, holds_eq r h h', holdsAlong_eq_of_akin r (.cons h' hrest)]

theorem comparison_alike (r : Comparison) : Likeness.unsigned.ComputesAlike (comparison r) := by
  intro xs ys h
  rw [comparison, comparison, h.length_eq, holdsAlong_eq_of_akin r h]
  split
  · exact .inl ⟨_, rfl, rfl⟩
  · exact .inr ⟨_, _, rfl, rfl, rfl⟩

theorem sum_alike : Likeness.unsigned.ComputesAlike sum := fun _ _ h =>
  .inr ⟨_, _, rfl, rfl, .number (foldl_akin .add h rfl)⟩

theorem product_alike : Likeness.unsigned.ComputesAlike product := fun _ _ h =>
  .inr ⟨_, _, rfl, rfl, .number (foldl_akin .mul h rfl)⟩

theorem difference_alike : Likeness.unsigned.ComputesAlike difference := by
  intro xs ys h
  cases h with
  | nil => exact .inl ⟨_, rfl, rfl⟩
  | cons hfirst hrest =>
    cases hrest with
    | nil => exact .inr ⟨_, _, rfl, rfl, .number hfirst.neg⟩
    | cons h hrest => exact .inr ⟨_, _, rfl, rfl, .number (foldl_akin .sub (.cons h hrest) hfirst)⟩

/-- **The sign of a zero divisor never counts**: nothing is divided by it. -/
theorem divideBy_akin (h : List.Forall₂ Binary64.Akin xs ys) : ∀ {x y : Float}, Binary64.Akin x y →
    (divideBy x xs).map Binary64.unsigned = (divideBy y ys).map Binary64.unsigned := by
  induction h with
  | nil => exact fun h => congrArg Except.ok h
  | @cons divisor divisor' _ _ hdivisor _ ih =>
    intro x y h
    have hzero : (divisor == 0) = (divisor' == 0) := hdivisor.beq_eq rfl
    rw [divideBy, divideBy, ← hzero]
    cases hdivides : divisor == 0 with
    | true => rfl
    | false =>
      rw [← hdivisor.eq_of_beq_zero_eq_false hdivides]
      exact ih (h.div hdivides)

theorem quotient_alike : Likeness.unsigned.ComputesAlike quotient := by
  intro xs ys h
  cases h with
  | nil => exact .inl ⟨_, rfl, rfl⟩
  | cons hfirst hrest =>
    cases hrest with
    | nil => exact .inl ⟨_, rfl, rfl⟩
    | @cons second second' rest rest' hsecond hrest =>
      have hdivided := divideBy_akin (.cons hsecond hrest) hfirst
      rw [quotient, quotient]
      generalize divideBy _ (second :: rest) = a at hdivided
      generalize divideBy _ (second' :: rest') = b at hdivided
      rcases a with err | x <;> rcases b with err' | y
      · cases hdivided
        exact .inl ⟨err, rfl, rfl⟩
      · cases hdivided
      · cases hdivided
      · exact .inr ⟨_, _, rfl, rfl, .number (Except.ok.inj hdivided)⟩

theorem pick_akin (m : Extremum) {x y x' y' : Float} (h : Binary64.Akin x y)
    (h' : Binary64.Akin x' y') : Binary64.Akin (pick m x x') (pick m y y') := by
  unfold pick
  rw [h.isNaN_eq, h'.isNaN_eq]
  cases m with
  | max =>
    simp only [h.lt_iff h']
    split_ifs <;> assumption
  | min =>
    simp only [h'.lt_iff h]
    split_ifs <;> assumption

theorem extremum_alike (m : Extremum) : Likeness.unsigned.ComputesAlike (Rule.extremum m) := by
  intro xs ys h
  cases h with
  | nil => exact .inl ⟨_, rfl, rfl⟩
  | cons hfirst hrest =>
    exact .inr ⟨_, _, rfl, rfl, .number (foldl_akin (pick_akin m) hrest hfirst)⟩

end Numbers

end Rule

open Rule in
theorem Likeness.unsigned_arithmetic : Likeness.unsigned.Arithmetic :=
  ⟨comparison_alike, sum_alike, difference_alike, product_alike, quotient_alike, extremum_alike⟩

/-! ## Operators and expressions -/

/-- **Every operator makes akin results of terms that agree**, in akin contexts. -/
theorem Operator.apply_agrees {c d : Value} {arguments arguments' : Arguments} (h : c.Akin d)
    (hargs : arguments.Agree arguments') (operator : Operator) (path : String) :
    Agree Applied.Akin (operator.apply arguments ⟨c, path⟩)
      (operator.apply arguments' ⟨d, path⟩) :=
  Likeness.unsigned.apply_alike Likeness.unsigned_arithmetic Likeness.unsigned_contents h hargs
    operator path

theorem runNamed_agrees {c d : Value} {arguments arguments' : Arguments} (h : c.Akin d)
    (hargs : arguments.Agree arguments') (name path : String) :
    Agree Value.Akin (runNamed name arguments ⟨c, path⟩) (runNamed name arguments' ⟨d, path⟩) := by
  rw [runNamed, runNamed]
  rcases Operator.ofName? name with _ | operator
  · exact .fails rfl
  · have happly := operator.apply_agrees h hargs path
    dsimp only
    rw [Operator.runNode, Operator.runNode]
    generalize operator.apply arguments ⟨c, path⟩ = x at happly
    generalize operator.apply arguments' ⟨d, path⟩ = y at happly
    cases happly with
    | fails herror => exact .fails herror
    | @gives applied applied' children children' hakin hsteps =>
      have hresult : applied.result.unsigned = applied'.result.unsigned := hakin.result
      have hpayload : applied.payload.unsigned = applied'.payload.unsigned := hakin.payload
      refine .gives hakin.result ?_
      simp only [TraceStep.unsignedAll, TraceStep.unsigned, Option.map_some, hresult, hpayload,
        hsteps]

namespace Value

mutual

theorem run_agrees : ∀ {e e' : Value}, e.Akin e' → ∀ {c d : Value}, c.Akin d → ∀ path,
    Agree Akin (e.run ⟨c, path⟩) (e'.run ⟨d, path⟩)
  | .object [(name, argument)], e', he, c, d, h, path => by
    cases he using Akin.split with
    | object _ ys he =>
      obtain ⟨⟨_, argument'⟩, _, ⟨rfl, hargument⟩, hrest, rfl⟩ := List.forall₂_cons_left_iff.mp he
      cases hrest
      have hbare : argument.asTerm.Agree argument'.asTerm := ⟨hargument, run_agrees hargument⟩
      rw [run_node, run_node]
      refine runNamed_agrees h ?_ name path
      cases argument with
      | array items =>
        cases hargument using Akin.split with
        | array _ items' hitems => exact .list (terms_agree hitems)
      | _ =>
        cases hargument using Akin.split
        exact .bare hbare
  | .object [], e', he, c, d, h, path => by
    cases he using Akin.split with
    | object _ ys he =>
      cases he
      exact .fails rfl
  | .object (first :: second :: rest), e', he, c, d, h, path => by
    cases he using Akin.split with
    | object _ ys he =>
      have hlength := he.length_eq
      have hmany : (first :: second :: rest).length ≠ 1 := by simp
      rw [run_malformed hmany, run_malformed (hlength ▸ hmany), hlength]
      exact .fails rfl
  | .array items, e', he, _, _, h, path => by
    cases he using Akin.split with
    | array _ items' he =>
      exact (runItems_agrees he 0 h path).bind fun _ _ hvalues => .pure (.array hvalues)
  | .null, e', he, _, _, _, _ => by
    cases he using Akin.split with
    | null => exact .pure (.refl _)
  | .bool b, e', he, _, _, _, _ => by
    cases he using Akin.split with
    | bool => exact .pure (.refl _)
  | .number x, e', he, _, _, _, _ => by
    cases he using Akin.split with
    | number _ _ he => exact .pure (.number he)
  | .string s, e', he, _, _, _, _ => by
    cases he using Akin.split with
    | string => exact .pure (.refl _)
  termination_by structural e => e

theorem runItems_agrees : ∀ {items items' : List Value}, List.Forall₂ Akin items items' →
    ∀ (i : Nat) {c d : Value}, c.Akin d → ∀ path,
      Agree (List.Forall₂ Akin) (runItems items i ⟨c, path⟩) (runItems items' i ⟨d, path⟩)
  | [], _, .nil, _, _, _, _, _ => .pure .nil
  | _ :: _, _, .cons he hrest, i, _, _, h, path =>
    (run_agrees he h _).bind fun _ _ hvw =>
      (runItems_agrees hrest (i + 1) h path).bind fun _ _ hmore => .pure (.cons hvw hmore)
  termination_by structural items => items

theorem terms_agree : ∀ {items items' : List Value}, List.Forall₂ Akin items items' →
    List.Forall₂ Term.Agree (terms items) (terms items')
  | [], _, .nil => .nil
  | _ :: _, _, .cons he hrest => .cons ⟨he, run_agrees he⟩ (terms_agree hrest)
  termination_by structural items => items

end

end Value

/-- **Akin expressions in akin contexts** come to akin values by the same steps, or fail with the
same error, up to the signs of zeros. -/
theorem evaluate_akin {e e' c d : Value} (he : e.Akin e') (h : c.Akin d) :
    (∃ r s, evaluate e c = .ok r ∧ evaluate e' d = .ok s ∧ r.result.Akin s.result ∧
        TraceStep.unsignedAll r.trace = TraceStep.unsignedAll s.trace) ∨
      ∃ err err', evaluate e c = .error err ∧ evaluate e' d = .error err' ∧
        err.unsigned = err'.unsigned := by
  have hrun := Value.run_agrees he h rootPath
  rw [evaluate, evaluate]
  generalize e.run ⟨c, rootPath⟩ = x at hrun
  generalize e'.run ⟨d, rootPath⟩ = y at hrun
  cases hrun with
  | gives hresult hsteps => exact .inl ⟨_, _, rfl, rfl, hresult, hsteps⟩
  | fails herror => exact .inr ⟨_, _, rfl, rfl, herror⟩

end DecisionRules
