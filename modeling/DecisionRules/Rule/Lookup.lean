import DecisionRules.Rule.Term
import DecisionRules.Value.Path

/-!
# Rule/Lookup — operators that read the context

`var` gives the value at a path, `missing` the paths at which there is nothing, and `missing_some`
those paths if too few of them hold something. Paths are read as written and never evaluated.
-/

namespace DecisionRules.Rule

/-- The path that a `var` names, and the sub-expression that stands in if nothing is there. -/
def varTarget : Arguments → Recorded (String × Option Term)
  | .list [] => pure ("", none)
  | .list (first :: rest) => do
    let path ← asWrittenString .var "path" first.written
    pure (path, rest.head?)
  | .bare term =>
    match term.written with
    | .null => pure ("", none)
    | written => do
      let path ← asWrittenString .var "path" written
      pure (path, none)

/-- `var`: the value at a path, else the value of the stand-in, else `null`. -/
def var (arguments : Arguments) (place : Place) : Recorded Applied := do
  let (path, standIn) ← varTarget arguments
  let explain (value : Value) (defaulted : Bool) : Applied :=
    ⟨value, .object [("path", .string path), ("value", value), ("default_used", .bool defaulted)]⟩
  match place.context.resolve path, standIn with
  | some found, _ => pure (explain found false)
  | none, some term => do
    let value ← term.run (place.child .fallback)
    pure (explain value true)
  | none, none => pure (explain .null false)

/-- Splits paths, as written, by whether something is there: how many hold something, and which do
not. -/
def presence (operator : Operator) (context : Value) : List Value → Recorded (Nat × List Value)
  | [] => pure (0, [])
  | written :: rest => do
    let path ← asWrittenString operator "key" written
    let (present, absent) ← presence operator context rest
    if context.hasAt path then pure (present + 1, absent)
    else pure (present, .string path :: absent)

/-- `missing`: the paths at which there is nothing or `null`. -/
def missing (arguments : Arguments) (place : Place) : Recorded Applied := do
  let terms ← arguments.asList .missing
  let keys := terms.map (·.written)
  let (_, absent) ← presence .missing place.context keys
  pure ⟨.array absent, .object [("keys", .array keys), ("missing", .array absent)]⟩

/-- `missing_some`: the paths at which there is nothing or `null`, if those at which there is
something are fewer than the threshold. -/
def missingSome (arguments : Arguments) (place : Place) : Recorded Applied := do
  let (threshold, keys) ← arguments.asPair .missingSome .notThresholdAndKeys
  let value ← threshold.run (place.child .threshold)
  let required ← asNumber .missingSome value
  let keys ← Recorded.ofOption (.invalidArguments .missingSome .notArray) keys.written.items?
  let (present, absent) ← presence .missingSome place.context keys
  let result : Value :=
    if Binary64.ofInt present < required then .array absent else .array []
  pure ⟨result, .object [("min", .number required), ("missing", result)]⟩

end DecisionRules.Rule
