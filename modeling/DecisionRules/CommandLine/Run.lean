import DecisionRules.CommandLine.Arguments
import DecisionRules.CommandLine.Settings
import DecisionRules.Engine.Basic
import DecisionRules.Record.Read
import DecisionRules.Record.Write

/-!
# CommandLine/Run — what the program does

A run is a function of the invocation and of the files it names. It gives an exit code and what goes
to the two output streams: zero if all went well, one if something could not be read or evaluated, a
definition was invalid, or a regression case failed. The wording of what went wrong with a file
comes from outside (`Surroundings.detail`), and so does the double that a decimal in a file is taken
for (`Rounding`).
-/

namespace DecisionRules.CommandLine

/-- What is wrong with a file, in more words than a message has. -/
inductive Trouble
  | unreadableSettings (path : String)
  | invalidSettings (path : String)
  | invalidJson (path : String)

/-- What a run depends on besides its invocation. -/
structure Surroundings where
  /-- The text of a file, if there is such a file. -/
  file : String → Option String
  sources : Sources
  detail : Trouble → String

/-- What a run comes to. -/
structure Outcome where
  code : Nat
  stdout : String
  stderr : String

/-- A run that went well. -/
def Outcome.success (stdout : String) : Outcome := ⟨0, stdout, ""⟩

/-- Lines, each with its end. -/
def unlines (lines : List String) : String := String.join (lines.map (· ++ "\n"))

/-- A text for a stream, nothing if the run is to be quiet. -/
def Invocation.say (i : Invocation) (text : String) : String := if i.quiet then "" else text

/-- A message as it is shown. -/
def Invocation.messageText (i : Invocation) (message : String) : String :=
  match i.output with
  | .text => message ++ "\n"
  | .json => (Json.object [("error", .string message)]).write ++ "\n"

/-- A run that ends with a message. -/
def Invocation.failure (i : Invocation) (message : String) : Outcome :=
  ⟨1, "", i.say (i.messageText message)⟩

/-! ## Files -/

/-- What a JSON file of some shape holds; else what to say about it. `what` is what the file should
hold. -/
def readFile [Rounding] {α : Type} (around : Surroundings) (what path : String) (shape : Shape)
    (ofJson? : Json → Option α) : Except String α :=
  match around.file path with
  | none => .error ("error: " ++ what ++ " file not found: " ++ path)
  | some text =>
    match readText shape ofJson? text with
    | .ok a => .ok a
    | .error _ =>
      .error ("error: invalid JSON in " ++ path ++ ": " ++ around.detail (.invalidJson path))

/-- The settings of a file, or those without one; else what to say about the file. -/
def readSettings (around : Surroundings) : Option String → Except String Settings
  | none => .ok Settings.default
  | some path =>
    match around.file path with
    | none =>
      .error ("error reading config file '" ++ path ++ "': " ++
        around.detail (.unreadableSettings path))
    | some text =>
      match Settings.ofText? text with
      | some settings => .ok settings
      | none =>
        .error ("invalid config file '" ++ path ++ "': " ++ around.detail (.invalidSettings path))

/-! ## Evaluating -/

mutual

/-- The line of a step, and those of the steps below it two spaces further in. -/
def stepLines (depth : Nat) : TraceStep → List String
  | ⟨path, operator, result, _, children⟩ =>
    (String.ofList (List.replicate (2 * depth) ' ') ++ path ++ " " ++ operator ++ " -> " ++
      result.text) :: traceLines (depth + 1) children
  termination_by structural s => s

/-- The lines of a forest. -/
def traceLines (depth : Nat) : List TraceStep → List String
  | [] => []
  | s :: rest => stepLines depth s ++ traceLines depth rest
  termination_by structural forest => forest

end

/-- An evaluation as it is shown. -/
def Invocation.responseText (i : Invocation) (r : EvaluationResponse) : String :=
  match i.output with
  | .json => r.toJson.pretty ++ "\n"
  | .text =>
    unlines (["Result: " ++ r.result.text, "Proof: " ++ r.proof.id] ++
      (if r.trace.isEmpty then [] else "Trace:" :: traceLines 1 r.trace))

/-- Evaluates the expression of a file. -/
def Invocation.eval [Rounding] (i : Invocation) (around : Surroundings) (expression : String)
    (context : Option String) : Outcome :=
  let read : Except String (Value × Value) := do
    let logic ← readFile around "expression" expression .value Value.ofJson?
    match context with
    | none => pure (logic, Value.emptyObject)
    | some path =>
      let context ← readFile around "context" path .value Value.ofJson?
      pure (logic, context)
  match read with
  | .error message => i.failure message
  | .ok (logic, context) =>
    match (Engine.empty.evaluate around.sources ⟨some logic, none, none, context, false⟩).1 with
    | .error e => i.failure ("evaluation error: " ++ e.message)
    | .ok response => .success (i.say (i.responseText response))

/-! ## Validating -/

/-- Validates the expression of a file. -/
def Invocation.check [Rounding] (i : Invocation) (around : Surroundings) (expression : String) :
    Outcome :=
  match readFile around "expression" expression .value Value.ofJson? with
  | .error message => i.failure message
  | .ok logic =>
    match validate logic with
    | .ok () =>
      .success (i.say (match i.output with
        | .text => "valid\n"
        | .json => (Json.object [("valid", .bool true)]).write ++ "\n"))
    | .error e =>
      ⟨1, "", i.say (match i.output with
        | .text => "invalid expression: " ++ e.message ++ "\n"
        | .json =>
          (Json.object [("error", .string e.message), ("valid", .bool false)]).write ++ "\n")⟩

/-! ## Regression runs -/

/-- Which rules to test, and in which version. -/
structure Selection where
  rule : Option String
  version : Option Nat
  preferLatest : Bool

/-- Creates the rules of a catalog file in order, putting those in force that ask for it. -/
def loadEntries (src : Sources) : List CatalogEntry → Engine → Except EngineError Engine
  | [], e => .ok e
  | entry :: rest, e =>
    match e.create src entry.draft with
    | (.error err, _) => .error err
    | (.ok made, e) =>
      if entry.publish then
        match e.publish src made.stableId made.version none with
        | (.error err, _) => .error err
        | (.ok _, e) => loadEntries src rest e
      else loadEntries src rest e

/-- The rules to test: the one asked for, or all of them. -/
def Selection.targets (s : Selection) (e : Engine) : List String :=
  match s.rule with
  | some id => [id]
  | none => e.catalog.listing.rules.map (·.stableId)

/-- Tests rules one after the other. A rule without cases is passed over unless it was asked for. -/
def runTargets (src : Sources) (s : Selection) :
    List String → Engine → Except EngineError (List RegressionReport)
  | [], _ => .ok []
  | id :: rest, e =>
    match e.regress src ⟨id, s.version, s.preferLatest, []⟩ with
    | (.ok report, e) => (runTargets src s rest e).map (report :: ·)
    | (.error (.noRegressionCases stableId version), e) =>
      if s.rule.isNone then runTargets src s rest e
      else .error (.noRegressionCases stableId version)
    | (.error err, _) => .error err

/-- The lines of a report: how many cases passed and failed, and each that failed. -/
def reportLines (r : RegressionReport) : List String :=
  (r.stableId ++ " v" ++ toString r.version ++ ": " ++ toString r.passed ++ " passed, " ++
      toString r.failed ++ " failed") ::
    r.failures.map fun c =>
      "  FAIL " ++ c.name ++ ": expected " ++ c.expected.text ++ ", got " ++ c.actual.text

/-- A count summed over all reports. -/
def total (count : RegressionReport → Nat) (reports : List RegressionReport) : Nat :=
  reports.foldl (fun sum r => sum + count r) 0

/-- Reports as they are shown. -/
def Invocation.reportsText (i : Invocation) (reports : List RegressionReport) : String :=
  match i.output with
  | .json => (Json.array (reports.map RegressionReport.toJson)).pretty ++ "\n"
  | .text =>
    if reports.isEmpty then "No regression cases to run\n"
    else
      unlines (reports.flatMap reportLines ++
        [toString (total (·.total) reports) ++ " case(s), " ++
          toString (total (·.failed) reports) ++ " failed"])

/-- Runs the regression cases of a catalog file. -/
def Invocation.regress [Rounding] (i : Invocation) (around : Surroundings) (catalog : String)
    (s : Selection) : Outcome :=
  match readFile around "catalog" catalog (.list (.record .catalogEntry))
      (listOfJson? CatalogEntry.ofJson?) with
  | .error message => i.failure message
  | .ok entries =>
    match loadEntries around.sources entries Engine.empty with
    | .error e => i.failure ("error loading catalog: " ++ e.message)
    | .ok engine =>
      match runTargets around.sources s (s.targets engine) engine with
      | .error e => i.failure ("regression error: " ++ e.message)
      | .ok reports =>
        ⟨if reports.all (·.allPassed) then 0 else 1, i.say (i.reportsText reports), ""⟩

/-! ## All together -/

/-- The files that an invocation may read. -/
def Invocation.files (i : Invocation) : List String :=
  i.config.toList ++
    match i.command with
    | .eval expression context => expression :: context.toList
    | .check expression => [expression]
    | .regress catalog _ _ _ => [catalog]

/-- Carries out an invocation: the settings are read first, whatever the command. -/
def Invocation.run [Rounding] (i : Invocation) (around : Surroundings) : Outcome :=
  match readSettings around i.config with
  | .error message => i.failure message
  | .ok settings =>
    match i.command with
    | .eval expression context => i.eval around expression context
    | .check expression => i.check around expression
    | .regress catalog rule version latest =>
      i.regress around catalog ⟨rule, version, latest || settings.preferLatest⟩

/-- What the program calls itself and its version. -/
def versionText : String := "rulebook 0.1.0\n"

end DecisionRules.CommandLine
