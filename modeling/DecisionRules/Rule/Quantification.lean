import DecisionRules.Rule.Term

/-!
# Rule/Quantification — predicates over the elements of a sequence

The predicate runs once for each element, in a context where `item` and `index` are bound on top of
what is there, and no further than the first element that decides.
-/

namespace DecisionRules

namespace Quantifier

/-- What an element with this outcome decides, if anything. -/
def decides : Quantifier → Bool → Option Bool
  | .all, false => some false
  | .any, true => some true
  | .none, true => some false
  | _, _ => Option.none

/-- The answer when no element decides. -/
def exhausted : Quantifier → Bool
  | .any => false
  | _ => true

end Quantifier

namespace Rule

/-- The elements of a sequence: the items of an array, or the keys of an object. -/
def elements? : Value → Option (List Value)
  | .array items => some items
  | .object entries => some (entries.map (fun (key, _) => .string key))
  | _ => none

/-- A context with `item` and `index` bound; a context that is no object contributes nothing. -/
def bindItem (context item : Value) (i : Nat) : Value :=
  let outer := context.entries?.getD []
  .object (Value.insert "index" (.ofInt i) (Value.insert "item" item outer))

/-- Runs a predicate on elements from position `i` on; gives the answer and a record of each element
looked at. -/
def scanElements (q : Quantifier) (predicate : Term) (place : Place) :
    Nat → List Value → Recorded (Bool × List Value)
  | _, [] => pure (q.exhausted, [])
  | i, item :: rest => do
    let inner := place.child (.predicate i)
    let outcome ← predicate.run { inner with context := bindItem place.context item i }
    let record : Value := .object [("index", .ofInt i), ("item", item), ("result", outcome)]
    match q.decides outcome.truthy with
    | some answer => pure (answer, [record])
    | none => do
      let (answer, records) ← scanElements q predicate place (i + 1) rest
      pure (answer, record :: records)

/-- `bl_all`, `bl_any` and `bl_none`: whether a predicate holds for all, some or no elements. -/
def quantification (q : Quantifier) (arguments : Arguments) (place : Place) :
    Recorded Applied := do
  let (sequence, predicate) ← arguments.asPair (.quantify q) .notSequenceAndPredicate
  let sequence ← sequence.run (place.child .sequence)
  let elements ← Recorded.ofOption (.invalidArguments (.quantify q) (.notIterable sequence))
    (elements? sequence)
  let (answer, records) ← scanElements q predicate place 0 elements
  pure ⟨.bool answer, .array records⟩

end Rule

end DecisionRules
