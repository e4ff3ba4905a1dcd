import DecisionRules.Proofs.Rule.Likeness
import DecisionRules.Proofs.Value.KeyOrder

/-!
# Proofs/Rule/Unordered — evaluation that does without the order of keys

Two operations look at the order of keys.  A text is searched for a value as it is printed, keys in
their order; and a quantifier takes the keys of an object one after the other, counts them, and
stops at the first that decides or fails.

An evaluation can do without: it stops where one of the two would depend on an order, and otherwise
goes on as ever (`Value.runUnordered`).  It is compared with evaluation in a context whose keys may
come in another order: one computation tracks another if it stops, or both give values that are
alike, or both fail in the same way (`Recorded.Tracks`).  That makes a likeness of runs
(`Likeness.unordered`), and steps that no order of keys has a part in do not leave it.
-/

namespace DecisionRules

/-! ## Evaluation without order -/

namespace EvalError

/-- What an evaluation without order stops with: a text that is not searchable, an object that is
not iterable.  No other evaluation finds fault with these. -/
def AsksForOrder : EvalError → Prop
  | .invalidArguments .membership (.notSearchable (.string _)) => True
  | .invalidArguments (.quantify _) (.notIterable (.object _)) => True
  | _ => False

/-- The error with the keys in order, if it holds a value.  Two errors that are the same then are of
one kind, in the same node or operator and for the same reason. -/
def sortKeys : EvalError → EvalError
  | .notNumeric operator v => .notNumeric operator v.sortKeys
  | .invalidArguments operator (.notIterable v) =>
    .invalidArguments operator (.notIterable v.sortKeys)
  | .invalidArguments operator (.notSearchable v) =>
    .invalidArguments operator (.notSearchable v.sortKeys)
  | err => err

end EvalError

namespace Rule

/-- Whether a value is in another; a text is not searched for a value whose keys have an order. -/
def isInUnordered? (needle : Value) : Value → Option Bool
  | .string s => if needle.hasOrder then none else isIn? needle (.string s)
  | haystack => isIn? needle haystack

/-- `in` without order. -/
def membershipUnordered (arguments : Arguments) (place : Place) : Recorded Applied := do
  let (needle, haystack) ← arguments.asPair .membership .notPair
  let needle ← needle.run (place.child .needle)
  let haystack ← haystack.run (place.child .haystack)
  let found ← Recorded.ofOption (.invalidArguments .membership (.notSearchable haystack))
    (isInUnordered? needle haystack)
  pure ⟨.bool found, .null⟩

/-- What a predicate says of an element at a position, if it has a value there. -/
def verdict? (predicate : Term) (place : Place) (item : Value) (i : Nat) : Option Bool :=
  match predicate.run ⟨bindItem place.context item i, (place.child (.predicate i)).path⟩ with
  | .error _ => none
  | .ok (outcome, _) => some outcome.truthy

/-- Whether a predicate has a value on each of these elements at each of their positions, and says
the same of it at all of them. -/
def isSteady (predicate : Term) (place : Place) (elements : List Value) : Bool :=
  elements.all fun item => (List.range elements.length).all fun i =>
    (verdict? predicate place item i).isSome &&
      verdict? predicate place item i == verdict? predicate place item 0

/-- The elements of a sequence.  Several keys count as such only if it does not matter in which
order the predicate looks at them. -/
def elementsUnordered? (predicate : Term) (place : Place) : Value → Option (List Value)
  | .object entries => (elements? (.object entries)).filter fun keys =>
    decide (entries.length ≤ 1) || isSteady predicate place keys
  | sequence => elements? sequence

/-- A quantifier without order. -/
def quantificationUnordered (q : Quantifier) (arguments : Arguments) (place : Place) :
    Recorded Applied := do
  let (sequence, predicate) ← arguments.asPair (.quantify q) .notSequenceAndPredicate
  let sequence ← sequence.run (place.child .sequence)
  let elements ← Recorded.ofOption (.invalidArguments (.quantify q) (.notIterable sequence))
    (elementsUnordered? predicate place sequence)
  let (answer, _) ← scanElements q predicate place 0 elements
  pure ⟨.bool answer, .null⟩

end Rule

/-- What an operator does without order. -/
def Operator.applyUnordered : Operator → Arguments → Place → Recorded Applied
  | .membership => Rule.membershipUnordered
  | .quantify q => Rule.quantificationUnordered q
  | operator => operator.apply

/-- Runs the node whose key is `name` without order. -/
def runNamedUnordered (name : String) (arguments : Arguments) (place : Place) : Recorded Value :=
  match Operator.ofName? name with
  | some operator => do
    let applied ← operator.applyUnordered arguments place
    pure applied.result
  | none => Recorded.fail (.unsupportedOperator name place.path)

namespace Value

mutual

/-- Evaluates an expression at a place, without order. -/
def runUnordered : Value → Place → Recorded Value
  | .object [(name, .array items)], place =>
    runNamedUnordered name (.list (termsUnordered items)) place
  | .object [(name, argument)], place =>
    runNamedUnordered name (.bare ⟨argument, argument.runUnordered⟩) place
  | .object entries, place => Recorded.fail (.malformedNode place.path entries.length)
  | .array items, place => (.array ·) <$> runItemsUnordered items 0 place
  | literal, _ => pure literal
  termination_by structural e => e

/-- Evaluates the items of an array, from position `i` on, without order. -/
def runItemsUnordered : List Value → Nat → Place → Recorded (List Value)
  | [], _, _ => pure []
  | e :: rest, i, place => do
    let v ← e.runUnordered (place.item i)
    let more ← runItemsUnordered rest (i + 1) place
    pure (v :: more)
  termination_by structural items => items

/-- Sub-expressions as terms that are run without order. -/
def termsUnordered : List Value → List Term
  | [] => []
  | e :: rest => ⟨e, e.runUnordered⟩ :: termsUnordered rest
  termination_by structural items => items

end

/-- Whether the evaluation of an expression in a context comes upon something that depends on the
order of keys: a text that is searched for a value in which an object has two keys, or a quantifier
over an object with two keys whose predicate fails on one of them at some position, or says
something else of it at another. -/
def AsksForOrder (e context : Value) : Prop :=
  ∃ err, e.runUnordered ⟨context, rootPath⟩ = .error err ∧ err.AsksForOrder

end Value

/-! ## Two runs at once -/

namespace Recorded

variable {α β γ δ : Type} {R : α → β → Prop} {S : γ → δ → Prop}

/-- The first computation asks for an order, or both give related results, or both fail in the same
way. -/
inductive Tracks (R : α → β → Prop) : Recorded α → Recorded β → Prop
  | stops {err y} (h : err.AsksForOrder) : Tracks R (.error err) y
  | gives {a b before after} (h : R a b) : Tracks R (.ok (a, before)) (.ok (b, after))
  | fails {err err'} (h : err.sortKeys = err'.sortKeys) : Tracks R (.error err) (.error err')

namespace Tracks

theorem pure {a : α} {b : β} (h : R a b) : Tracks R (Pure.pure a) (Pure.pure b) := .gives h

theorem mono {x : Recorded α} {y : Recorded β} {R' : α → β → Prop} (h : Tracks R x y)
    (hR : ∀ a b, R a b → R' a b) : Tracks R' x y := by
  cases h with
  | stops h => exact .stops h
  | gives h => exact .gives (hR _ _ h)
  | fails h => exact .fails h

theorem refl (x : Recorded α) : Tracks Eq x x := by
  rcases x with err | ⟨a, steps⟩
  · exact .fails rfl
  · exact .gives rfl

/-- **One step after another**: related values are gone on with in related ways. -/
theorem bind {x : Recorded α} {y : Recorded β} {f : α → Recorded γ} {g : β → Recorded δ}
    (hx : Tracks R x y) (hf : ∀ a b, R a b → Tracks S (f a) (g b)) :
    Tracks S (x >>= f) (y >>= g) := by
  cases hx with
  | stops h => exact .stops h
  | fails h => exact .fails h
  | @gives a b before after h =>
    change Tracks S (andThen (.ok (a, before)) f) (andThen (.ok (b, after)) g)
    have hnext := hf a b h
    simp only [andThen]
    generalize f a = p at hnext
    generalize g b = q at hnext
    cases hnext with
    | stops h => exact .stops h
    | fails h => exact .fails h
    | gives h => exact .gives h

end Tracks

end Recorded

open Recorded (Tracks)

/-- Two terms that are written alike and do the same in alike contexts. -/
structure Term.Track (t u : Term) : Prop where
  written : t.written = u.written
  run : ∀ {c d : Value}, c.Alike d → ∀ path, Tracks Value.Alike (t.run ⟨c, path⟩) (u.run ⟨d, path⟩)

/-- Two arguments of a node, term by term. -/
inductive Arguments.Track : Arguments → Arguments → Prop
  | list {ts us} (h : List.Forall₂ Term.Track ts us) : Track (.list ts) (.list us)
  | bare {t u} (h : t.Track u) : Track (.bare t) (.bare u)

/-- What operators give is compared by the result, not by what explains it. -/
def Applied.Alike (a b : Applied) : Prop := a.result.Alike b.result

namespace Rule

variable {c d : Value}

theorem asNumber_tracks {v w : Value} (h : v.Alike w) (operator : Operator) :
    Tracks Eq (asNumber operator v) (asNumber operator w) := by
  have hsort := h.sortKeys_eq
  cases h using Value.Alike.split with
  | number x => exact .gives rfl
  | _ => exact .fails (congrArg (EvalError.notNumeric operator) hsort)

theorem bindItem_alike (h : c.Alike d) {item item' : Value} (hitem : item.Alike item') (i : Nat) :
    (bindItem c item i).Alike (bindItem d item' i) := by
  have hentries : Value.AlikeEntries (c.entries?.getD []) (d.entries?.getD []) := by
    cases h using Value.Alike.split with
    | object xs ys h => exact h
    | _ => exact ⟨List.nodup_nil, List.nodup_nil, fun _ => .none⟩
  exact .object ((hentries.insert "item" hitem).insert "index" (.number _))

end Rule

/-- **Contexts that differ in the order of keys** are alike, and runs are if the first tracks the
second, which is not compared by what is shown. -/
def Likeness.unordered : Likeness where
  value := Value.Alike
  number := Eq
  written := Eq
  shown _ _ := True
  term := Term.Track
  arguments := Arguments.Track
  applied := Applied.Alike
  run := Tracks
  run_pure := .pure
  run_fail _ := .fails rfl
  run_bind := .bind
  value_refl := .refl
  value_array := .array
  truthy_eq := Value.Alike.truthy_eq
  isNull_eq := Value.Alike.isNull_eq
  beq_eq := Value.Alike.beq_eq
  asNumber_alike := Rule.asNumber_tracks
  resolve := Value.Alike.resolve
  bindItem_alike h hitem := Rule.bindItem_alike h hitem
  ofInt_lt_iff h _ := h ▸ Iff.rfl
  string?_eq := congrArg Value.string?
  written_isNull_eq := congrArg Value.isNull
  items? {v _} h := by
    subst h
    rcases v.items? with _ | items
    · exact .none
    · exact .some (List.forall₂_refl items)
  shown_number _ := trivial
  shown_value _ := trivial
  shown_written _ := trivial
  shown_array _ := trivial
  shown_object _ _ := trivial
  term_written := Term.Track.written
  term_run := Term.Track.run
  arguments_cases h := by
    cases h with
    | list h => exact .inl ⟨_, _, rfl, rfl, h⟩
    | bare h => exact .inr ⟨_, _, rfl, rfl, h⟩
  applied_mk h _ _ := h

end DecisionRules
