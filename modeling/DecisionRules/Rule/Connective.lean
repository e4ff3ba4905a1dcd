import DecisionRules.Rule.Term

/-!
# Rule/Connective — operators that choose which arguments to run

`and` and `or` stop at the argument that decides, and an `if` runs the first branch whose condition
holds. What is not run leaves no step and cannot fail.
-/

namespace DecisionRules.Rule

/-- Runs arguments until one decides; the result is the last value seen. -/
def untilDecided (operator : Operator) (decides : Value → Bool) (vacuous : Bool)
    (arguments : Arguments) (place : Place) : Recorded Applied := do
  let terms ← arguments.asList operator
  let seen ← runUntil decides place 0 terms
  pure ⟨seen.getLast?.getD (.bool vacuous), .array seen⟩

/-- `and`: the first value that does not count as true, else the last one. -/
def conjunction : Arguments → Place → Recorded Applied :=
  untilDecided .and (fun v => !v.truthy) true

/-- `or`: the first value that counts as true, else the last one. -/
def disjunction : Arguments → Place → Recorded Applied :=
  untilDecided .or Value.truthy false

/-- `!`: whether its one argument does not count as true. -/
def negation (arguments : Arguments) (place : Place) : Recorded Applied := do
  let term ←
    match arguments with
    | .list [single] => pure single
    | .list _ => Recorded.fail (.invalidArguments .not .notSingle)
    | .bare term => pure term
  let value ← term.run (place.child (.argument 0))
  pure ⟨.bool (!value.truthy), .array [value]⟩

/-- Runs a chain of conditions and branches from pair `k` on; gives the result and a record of each
condition that was run. -/
def chooseBranch (place : Place) : Nat → List Term → Recorded (Value × List Value)
  | k, condition :: branch :: rest => do
    let held ← condition.run (place.child (.condition k))
    if held.truthy then
      let result ← branch.run (place.child (.result k))
      pure (result, [.object [("condition", held), ("branch", result)]])
    else
      let (result, records) ← chooseBranch place (k + 1) rest
      pure (result, .object [("condition", held)] :: records)
  | _, [otherwise] => do
    let result ← otherwise.run (place.child .fallback)
    pure (result, [.object [("default", result)]])
  | _, [] => pure (.null, [.object [("default", .null)]])

/-- `if`: the branch of the first condition that counts as true, else the lone last argument, else
`null`. -/
def ifElse (arguments : Arguments) (place : Place) : Recorded Applied := do
  let terms ← arguments.asList .ifElse
  if terms.isEmpty then Recorded.fail (.invalidArguments .ifElse .noCondition)
  else
    let (result, records) ← chooseBranch place 0 terms
    pure ⟨result, .array records⟩

end DecisionRules.Rule
