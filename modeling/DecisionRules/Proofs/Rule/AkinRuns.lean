import DecisionRules.Proofs.Rule.Likeness
import DecisionRules.Proofs.Value.ZeroSign

/-!
# Proofs/Rule/AkinRuns — two evaluations at once that differ in the signs of zeros

Two computations agree (`Recorded.Agree`) if both give related values by the same steps, or both
fail alike, up to the signs of zeros.  Terms agree if they are written alike and agree wherever they
are run in akin contexts.  That makes a likeness of runs (`Likeness.unsigned`), and nothing that is
found in a value leaves it.
-/

namespace DecisionRules

/-! ## Traces and errors -/

namespace TraceStep

mutual

/-- A step without the signs of zeros. -/
def unsigned : TraceStep → TraceStep
  | ⟨path, operator, result, arguments, children⟩ =>
    ⟨path, operator, result.unsigned, arguments.map Value.unsigned, unsignedAll children⟩
  termination_by structural s => s

/-- A forest without the signs of zeros. -/
def unsignedAll : List TraceStep → List TraceStep
  | [] => []
  | s :: rest => s.unsigned :: unsignedAll rest
  termination_by structural forest => forest

end

theorem unsignedAll_append (before after : List TraceStep) :
    unsignedAll (before ++ after) = unsignedAll before ++ unsignedAll after := by
  induction before with
  | nil => rfl
  | cons s rest ih => rw [List.cons_append, unsignedAll, ih, unsignedAll, List.cons_append]

end TraceStep

/-- An error without the signs of zeros, if it holds a value. -/
def EvalError.unsigned : EvalError → EvalError
  | .notNumeric operator v => .notNumeric operator v.unsigned
  | .invalidArguments operator (.notIterable v) =>
    .invalidArguments operator (.notIterable v.unsigned)
  | .invalidArguments operator (.notSearchable v) =>
    .invalidArguments operator (.notSearchable v.unsigned)
  | err => err

/-! ## Two runs at once -/

namespace Recorded

variable {α β γ δ : Type} {R : α → β → Prop} {S : γ → δ → Prop}

/-- Both computations give related values by the same steps, or both fail in the same way, up to the
signs of zeros. -/
inductive Agree (R : α → β → Prop) : Recorded α → Recorded β → Prop
  | gives {a b before after} (h : R a b)
    (hsteps : TraceStep.unsignedAll before = TraceStep.unsignedAll after) :
    Agree R (.ok (a, before)) (.ok (b, after))
  | fails {err err'} (h : err.unsigned = err'.unsigned) : Agree R (.error err) (.error err')

namespace Agree

theorem pure {a : α} {b : β} (h : R a b) : Agree R (Pure.pure a) (Pure.pure b) := .gives h rfl

/-- **One step after another**: related values are gone on with in related ways. -/
theorem bind {x : Recorded α} {y : Recorded β} {f : α → Recorded γ} {g : β → Recorded δ}
    (hx : Agree R x y) (hf : ∀ a b, R a b → Agree S (f a) (g b)) :
    Agree S (x >>= f) (y >>= g) := by
  cases hx with
  | fails h => exact .fails h
  | @gives a b before after h hsteps =>
    change Agree S (andThen (.ok (a, before)) f) (andThen (.ok (b, after)) g)
    have hnext := hf a b h
    simp only [andThen]
    generalize f a = p at hnext
    generalize g b = q at hnext
    cases hnext with
    | fails h => exact .fails h
    | gives h hmore =>
      refine .gives h ?_
      rw [TraceStep.unsignedAll_append, TraceStep.unsignedAll_append, hsteps, hmore]

end Agree

end Recorded

open Recorded (Agree)

/-- Two terms that are written alike and do the same in akin contexts. -/
structure Term.Agree (t u : Term) : Prop where
  written : t.written.Akin u.written
  run : ∀ {c d : Value}, c.Akin d → ∀ path,
    Recorded.Agree Value.Akin (t.run ⟨c, path⟩) (u.run ⟨d, path⟩)

/-- Two arguments of a node, term by term. -/
inductive Arguments.Agree : Arguments → Arguments → Prop
  | list {ts us} (h : List.Forall₂ Term.Agree ts us) : Agree (.list ts) (.list us)
  | bare {t u} (h : t.Agree u) : Agree (.bare t) (.bare u)

/-- What operators give is akin, and so is what explains it. -/
structure Applied.Akin (a b : Applied) : Prop where
  result : a.result.Akin b.result
  payload : a.payload.Akin b.payload

namespace Rule

variable {c d : Value} {arguments arguments' : Arguments}

theorem asNumber_agrees {v w : Value} (h : v.Akin w) (operator : Operator) :
    Agree Binary64.Akin (asNumber operator v) (asNumber operator w) := by
  have hunsigned : v.unsigned = w.unsigned := h
  cases h using Value.Akin.split with
  | number x y h => exact .pure h
  | _ => exact .fails (congrArg (EvalError.notNumeric operator) hunsigned)

theorem bindItem_akin (h : c.Akin d) {item item' : Value} (hitem : item.Akin item') (i : Nat) :
    (bindItem c item i).Akin (bindItem d item' i) := by
  have hentries : List.Forall₂ Value.AkinEntry (c.entries?.getD []) (d.entries?.getD []) := by
    cases h using Value.Akin.split with
    | object xs ys h => exact h
    | _ => exact .nil
  exact .object (Value.Akin.insert (Value.Akin.insert hentries "item" hitem) "index" (.refl _))

end Rule

/-- **Akin contexts** are alike, and runs are that agree. -/
def Likeness.unsigned : Likeness where
  value := Value.Akin
  number := Binary64.Akin
  written := Value.Akin
  shown := Value.Akin
  term := Term.Agree
  arguments := Arguments.Agree
  applied := Applied.Akin
  run := Agree
  run_pure := .pure
  run_fail _ := .fails rfl
  run_bind := .bind
  value_refl _ := rfl
  value_array := .array
  truthy_eq := Value.Akin.truthy_eq
  isNull_eq := Value.Akin.isNull_eq
  beq_eq := Value.Akin.beq_eq
  asNumber_alike := Rule.asNumber_agrees
  resolve := Value.Akin.resolve
  bindItem_alike h hitem := Rule.bindItem_akin h hitem
  ofInt_lt_iff h _ := Binary64.Akin.lt_iff rfl h
  string?_eq := Value.Akin.string?_eq
  written_isNull_eq := Value.Akin.isNull_eq
  items? h := by
    cases h using Value.Akin.split with
    | array xs ys h => exact .some h
    | _ => exact .none
  shown_number := .number
  shown_value := id
  shown_written := id
  shown_array := .array
  shown_object _ := .object
  term_written := Term.Agree.written
  term_run := Term.Agree.run
  arguments_cases h := by
    cases h with
    | list h => exact .inl ⟨_, _, rfl, rfl, h⟩
    | bare h => exact .inr ⟨_, _, rfl, rfl, h⟩
  applied_mk hresult hpayload _ := ⟨hresult, hpayload⟩

namespace Rule

theorem isIn?_eq {needle needle' haystack haystack' : Value} (hneedle : needle.Akin needle')
    (hhaystack : haystack.Akin haystack') : isIn? needle haystack = isIn? needle' haystack' := by
  cases hhaystack using Value.Akin.split with
  | string s => rw [isIn?, isIn?, hneedle.displayText_eq]
  | array xs ys h => exact congrArg some (any_eq_of_forall₂ h fun _ _ hvw => hvw.beq_eq hneedle)
  | object xs ys h =>
    cases hneedle using Value.Akin.split with
    | string key => exact congrArg some (isSome_eq_of_rel (Value.Akin.lookup h key))
    | _ => rfl
  | _ => rfl

theorem elements?_agrees {v w : Value} (h : v.Akin w) (q : Quantifier) :
    Agree (List.Forall₂ Value.Akin)
      (Recorded.ofOption (.invalidArguments (.quantify q) (.notIterable v)) (elements? v))
      (Recorded.ofOption (.invalidArguments (.quantify q) (.notIterable w)) (elements? w)) := by
  have hunsigned : v.unsigned = w.unsigned := h
  cases h using Value.Akin.split with
  | array xs ys h => exact .pure h
  | object xs ys h =>
    have hkeys : List.Forall₂ Value.Akin (xs.map fun entry => .string entry.1)
        (ys.map fun entry => .string entry.1) := by
      rw [List.forall₂_map_left_iff, List.forall₂_map_right_iff]
      exact h.imp fun _ _ hentry => congrArg Value.string hentry.1
    exact .pure hkeys
  | _ =>
    exact .fails (congrArg
      (fun v => EvalError.invalidArguments (.quantify q) (.notIterable v)) hunsigned)

end Rule

theorem Likeness.unsigned_contents : Likeness.unsigned.Contents where
  isIn_alike {_ w v' w'} hneedle hhaystack := by
    change Agree Eq _ _
    rw [Rule.isIn?_eq hneedle hhaystack]
    rcases Rule.isIn? w w' with _ | found
    · exact .fails (congrArg
        (fun v => EvalError.invalidArguments .membership (.notSearchable v)) hhaystack)
    · exact .pure rfl
  elements_alike := Rule.elements?_agrees

end DecisionRules
