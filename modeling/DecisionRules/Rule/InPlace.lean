import DecisionRules.Rule.Evaluate

/-!
# Rule/InPlace — an evaluation that writes its trace as it goes

`Value.run` says what an expression comes to and which steps led there. Here the steps are written
while the evaluation goes on. It is handed a list and appends to it; the items of an array append to
the list of the array; an operator has its arguments append to a new list, and once it is done the
step of its node, with that list for its children, is appended to the list of the node. What has
been appended stays, also if something fails later.
-/

namespace DecisionRules.InPlace

/-! ## Work on a list of steps -/

/-- Work on a list of steps. It may fail, and what it has appended by then stays. -/
abbrev Work (α : Type) := ExceptT EvalError (StateM (List TraceStep)) α

namespace Work

variable {α : Type}

/-- The outcome of work on a list of steps, and the list as the work leaves it. -/
def carryOut (work : Work α) (steps : List TraceStep) : Except EvalError α × List TraceStep :=
  StateT.run (ExceptT.run work) steps

/-- Appends a step. -/
def append (step : TraceStep) : Work Unit := modify fun steps => steps ++ [step]

/-- Carries work out on a new list; gives its result and that list. -/
def onNewList (work : Work α) : Work (α × List TraceStep) := do
  let (outcome, steps) := work.carryOut []
  let a ← MonadExcept.ofExcept outcome
  pure (a, steps)

/-- Work that appends nothing. -/
def still (x : Recorded α) : Work α := MonadExcept.ofExcept x.outcome

end Work

/-! ## Arguments -/

/-- A sub-expression: how it is written, and the work of evaluating it. -/
structure Term where
  written : Value
  run : Place → Work Value

/-- What stands under the key of an operator node. -/
inductive Arguments
  /-- An array of arguments. -/
  | list (terms : List Term)
  /-- Anything else. -/
  | bare (term : Term)

/-- The arguments of an operator that takes only an array of them. -/
def Arguments.asList (operator : Operator) : Arguments → Work (List Term)
  | .list terms => pure terms
  | .bare _ => throw (.invalidArguments operator .notArray)

/-- The arguments of an operator that takes exactly two, `fault` being what is wrong otherwise. -/
def Arguments.asPair (operator : Operator) (fault : ArgumentFault) : Arguments → Work (Term × Term)
  | .list [first, second] => pure (first, second)
  | _ => throw (.invalidArguments operator fault)

/-- Runs arguments in order, from position `i` on, up to and including the first whose value
satisfies `stop`; gives the values seen. -/
def runUntil (stop : Value → Bool) (place : Place) : Nat → List Term → Work (List Value)
  | _, [] => pure []
  | i, t :: rest => do
    let v ← t.run (place.child (.argument i))
    if stop v then pure [v]
    else
      let more ← runUntil stop place (i + 1) rest
      pure (v :: more)

/-- Runs all arguments in order, from position `i` on. -/
def runEach (place : Place) (i : Nat) (terms : List Term) : Work (List Value) :=
  runUntil (fun _ => false) place i terms

/-- Runs arguments in order, from position `i` on, up to the first whose value is no number. -/
def runNumbers (operator : Operator) (place : Place) : Nat → List Term → Work (List Float)
  | _, [] => pure []
  | i, t :: rest => do
    let v ← t.run (place.child (.argument i))
    let x ← Work.still (asNumber operator v)
    let more ← runNumbers operator place (i + 1) rest
    pure (x :: more)

/-! ## Connectives -/

/-- Runs arguments until one decides; the result is the last value seen. -/
def untilDecided (operator : Operator) (decides : Value → Bool) (vacuous : Bool)
    (arguments : Arguments) (place : Place) : Work Applied := do
  let terms ← arguments.asList operator
  let seen ← runUntil decides place 0 terms
  pure ⟨seen.getLast?.getD (.bool vacuous), .array seen⟩

/-- The one argument of a negation, in a list or not. -/
def theArgument : Arguments → Work Term
  | .list [single] => pure single
  | .list _ => throw (.invalidArguments .not .notSingle)
  | .bare term => pure term

/-- `!`: whether its one argument does not count as true. -/
def negation (arguments : Arguments) (place : Place) : Work Applied := do
  let term ← theArgument arguments
  let value ← term.run (place.child (.argument 0))
  pure ⟨.bool (!value.truthy), .array [value]⟩

/-- Runs a chain of conditions and branches from pair `k` on; gives the result and a record of each
condition that was run. -/
def chooseBranch (place : Place) : Nat → List Term → Work (Value × List Value)
  | k, condition :: branch :: rest => do
    let held ← condition.run (place.child (.condition k))
    if held.truthy then
      let result ← branch.run (place.child (.result k))
      pure (result, [.object [("condition", held), ("branch", result)]])
    else
      let (result, records) ← chooseBranch place (k + 1) rest
      pure (result, .object [("condition", held)] :: records)
  | _, [otherwise] => do
    let result ← otherwise.run (place.child .fallback)
    pure (result, [.object [("default", result)]])
  | _, [] => pure (.null, [.object [("default", .null)]])

/-- `if`: the branch of the first condition that counts as true, else the lone last argument, else
`null`. -/
def ifElse (arguments : Arguments) (place : Place) : Work Applied := do
  let terms ← arguments.asList .ifElse
  if terms.isEmpty then throw (.invalidArguments .ifElse .noCondition)
  else
    let (result, records) ← chooseBranch place 0 terms
    pure ⟨result, .array records⟩

/-! ## Equality and numbers -/

/-- An operator that runs all its arguments and decides from their values. -/
def onValues (operator : Operator) (decide : List Value → Except EvalError Bool)
    (arguments : Arguments) (place : Place) : Work Applied := do
  let terms ← arguments.asList operator
  let values ← runEach place 0 terms
  let holds ← MonadExcept.ofExcept (decide values)
  pure ⟨.bool holds, .array values⟩

/-- Whether every value equals the first. -/
def allEqual : List Value → Except EvalError Bool
  | [] => .error (.invalidArguments .equal .noArgument)
  | first :: rest => .ok (rest.all (· == first))

/-- Whether some value differs from the first. -/
def someDiffers : List Value → Except EvalError Bool
  | first :: second :: rest => .ok ((second :: rest).any fun v => !(v == first))
  | _ => .error (.invalidArguments .notEqual .fewerThanTwo)

/-- An operator that runs all its arguments as numbers and computes its result from them. -/
def onNumbers (operator : Operator) (compute : List Float → Except EvalError Value)
    (arguments : Arguments) (place : Place) : Work Applied := do
  let terms ← arguments.asList operator
  let numbers ← runNumbers operator place 0 terms
  let result ← MonadExcept.ofExcept (compute numbers)
  pure ⟨result, numbersPayload numbers⟩

/-! ## Sequences -/

/-- Runs a predicate on elements from position `i` on; gives the answer and a record of each element
looked at. -/
def scanElements (q : Quantifier) (predicate : Term) (place : Place) :
    Nat → List Value → Work (Bool × List Value)
  | _, [] => pure (q.exhausted, [])
  | i, item :: rest => do
    let inner := place.child (.predicate i)
    let outcome ← predicate.run { inner with context := Rule.bindItem place.context item i }
    let record : Value := .object [("index", .ofInt i), ("item", item), ("result", outcome)]
    match q.decides outcome.truthy with
    | some answer => pure (answer, [record])
    | none => do
      let (answer, records) ← scanElements q predicate place (i + 1) rest
      pure (answer, record :: records)

/-- `bl_all`, `bl_any` and `bl_none`: whether a predicate holds for all, some or no elements. -/
def quantification (q : Quantifier) (arguments : Arguments) (place : Place) : Work Applied := do
  let (sequence, predicate) ← arguments.asPair (.quantify q) .notSequenceAndPredicate
  let sequence ← sequence.run (place.child .sequence)
  let elements ← Work.still (Recorded.ofOption
    (.invalidArguments (.quantify q) (.notIterable sequence)) (Rule.elements? sequence))
  let (answer, records) ← scanElements q predicate place 0 elements
  pure ⟨.bool answer, .array records⟩

/-- `in`: whether the first argument is in the second. -/
def membership (arguments : Arguments) (place : Place) : Work Applied := do
  let (needle, haystack) ← arguments.asPair .membership .notPair
  let needle ← needle.run (place.child .needle)
  let haystack ← haystack.run (place.child .haystack)
  let found ← Work.still (Recorded.ofOption
    (.invalidArguments .membership (.notSearchable haystack)) (Rule.isIn? needle haystack))
  pure ⟨.bool found, .object [("needle", needle), ("haystack", haystack)]⟩

/-! ## The context -/

/-- The path that a `var` names, and the sub-expression that stands in if nothing is there. -/
def varTarget : Arguments → Work (String × Option Term)
  | .list [] => pure ("", none)
  | .list (first :: rest) => do
    let path ← Work.still (asWrittenString .var "path" first.written)
    pure (path, rest.head?)
  | .bare term =>
    match term.written with
    | .null => pure ("", none)
    | written => do
      let path ← Work.still (asWrittenString .var "path" written)
      pure (path, none)

/-- `var`: the value at a path, else the value of the stand-in, else `null`. -/
def var (arguments : Arguments) (place : Place) : Work Applied := do
  let (path, standIn) ← varTarget arguments
  let explain (value : Value) (defaulted : Bool) : Applied :=
    ⟨value, .object [("path", .string path), ("value", value), ("default_used", .bool defaulted)]⟩
  match place.context.resolve path, standIn with
  | some found, _ => pure (explain found false)
  | none, some term => do
    let value ← term.run (place.child .fallback)
    pure (explain value true)
  | none, none => pure (explain .null false)

/-- `missing`: the paths at which there is nothing or `null`. -/
def missing (arguments : Arguments) (place : Place) : Work Applied := do
  let terms ← arguments.asList .missing
  let keys := terms.map (·.written)
  let (_, absent) ← Work.still (Rule.presence .missing place.context keys)
  pure ⟨.array absent, .object [("keys", .array keys), ("missing", .array absent)]⟩

/-- `missing_some`: the paths at which there is nothing or `null`, if those at which there is
something are fewer than the threshold. -/
def missingSome (arguments : Arguments) (place : Place) : Work Applied := do
  let (threshold, keys) ← arguments.asPair .missingSome .notThresholdAndKeys
  let value ← threshold.run (place.child .threshold)
  let required ← Work.still (asNumber .missingSome value)
  let keys ← Work.still (Recorded.ofOption (.invalidArguments .missingSome .notArray)
    keys.written.items?)
  let (present, absent) ← Work.still (Rule.presence .missingSome place.context keys)
  let result : Value :=
    if Binary64.ofInt present < required then .array absent else .array []
  pure ⟨result, .object [("min", .number required), ("missing", result)]⟩

/-! ## Expressions -/

/-- What an operator does with its arguments. -/
def apply : Operator → Arguments → Place → Work Applied
  | .var => var
  | .and => untilDecided .and (fun v => !v.truthy) true
  | .or => untilDecided .or Value.truthy false
  | .not => negation
  | .ifElse => ifElse
  | .membership => membership
  | .missing => missing
  | .missingSome => missingSome
  | .equal => onValues .equal allEqual
  | .notEqual => onValues .notEqual someDiffers
  | .compare c => onNumbers (.compare c) (Rule.comparison c)
  | .add => onNumbers .add Rule.sum
  | .subtract => onNumbers .subtract Rule.difference
  | .multiply => onNumbers .multiply Rule.product
  | .divide => onNumbers .divide Rule.quotient
  | .extremum e => onNumbers (.extremum e) (Rule.extremum e)
  | .quantify q => quantification q

/-- Applies an operator, its arguments appending to a new list, and appends the one step of its
node. -/
def runNode (operator : Operator) (arguments : Arguments) (place : Place) : Work Value := do
  let (applied, children) ← (apply operator arguments place).onNewList
  Work.append ⟨place.path, operator.name, applied.result, some applied.payload, children⟩
  pure applied.result

/-- Runs the node whose key is `name`. -/
def runNamed (name : String) (arguments : Arguments) (place : Place) : Work Value :=
  match Operator.ofName? name with
  | some operator => runNode operator arguments place
  | none => throw (.unsupportedOperator name place.path)

mutual

/-- Evaluates an expression at a place. -/
def run : Value → Place → Work Value
  | .object [(name, .array items)], place => runNamed name (.list (terms items)) place
  | .object [(name, argument)], place => runNamed name (.bare ⟨argument, run argument⟩) place
  | .object entries, place => throw (.malformedNode place.path entries.length)
  | .array items, place => do
    let values ← runItems items 0 place
    pure (.array values)
  | literal, _ => pure literal
  termination_by structural e => e

/-- Evaluates the items of an array, from position `i` on. -/
def runItems : List Value → Nat → Place → Work (List Value)
  | [], _, _ => pure []
  | e :: rest, i, place => do
    let v ← run e (place.item i)
    let more ← runItems rest (i + 1) place
    pure (v :: more)
  termination_by structural items => items

/-- Sub-expressions as terms. -/
def terms : List Value → List Term
  | [] => []
  | e :: rest => ⟨e, run e⟩ :: terms rest
  termination_by structural items => items

end

/-- Evaluates an expression in a context, from the root and on an empty list. A failure gives no
list. -/
def evaluate (expression context : Value) : Except EvalError Evaluation :=
  match (run expression ⟨context, rootPath⟩).carryOut [] with
  | (.ok result, trace) => .ok ⟨result, trace⟩
  | (.error e, _) => .error e

end DecisionRules.InPlace
