import DecisionRules.Number.Integer

/-!
# CommandLine/Arguments — what the command line asks for

The command line has a level for the program and one for its command. Options of the program may
stand on either level, and count there if they stand on both; within a level no option may be
repeated. An option's value is the next argument, unless that starts with a hyphen, or what follows
an equals sign. After `--` nothing is an option any more.
-/

namespace DecisionRules.CommandLine

/-- How results are shown. -/
inductive Output
  | text
  | json
  deriving DecidableEq

/-- What the program does. -/
inductive Command
  /-- Evaluate the expression in a file, in the context in another. -/
  | eval (expression : String) (context : Option String)
  /-- Validate the expression in a file. -/
  | check (expression : String)
  /-- Run the regression cases of a catalog file. -/
  | regress (catalog : String) (rule : Option String) (version : Option Nat) (latest : Bool)

/-- A command with the options of the program. -/
structure Invocation where
  output : Output
  quiet : Bool
  /-- The settings file. -/
  config : Option String
  command : Command

/-- What a command line comes to. -/
inductive Parsed
  | run (i : Invocation)
  | help
  | version
  /-- The command line does not follow the rules. -/
  | misuse

/-! ## Options -/

/-- The options there are. -/
inductive OptionName
  | output
  | quiet
  | config
  | context
  | rule
  | version
  | latest
  deriving DecidableEq

namespace OptionName

/-- The option without its hyphens. -/
def text : OptionName → String
  | .output => "output"
  | .quiet => "quiet"
  | .config => "config"
  | .context => "context"
  | .rule => "rule"
  | .version => "version"
  | .latest => "latest"

/-- Whether the option has a value. -/
def takesValue : OptionName → Bool
  | .quiet | .latest => false
  | _ => true

/-- The version number that a text writes. -/
def versionNumber? (s : String) : Option Nat :=
  match Integer.signed? s with
  | some n => if 0 ≤ n ∧ n < Nat.pow 2 32 then some n.toNat else none
  | none => none

/-- The way of showing results with a name. -/
def outputNamed? (s : String) : Option Output :=
  if s = "text" then some .text else if s = "json" then some .json else none

/-- Whether the option may have a value: paths are not empty, version numbers are numbers. -/
def accepts : OptionName → String → Bool
  | .output, s => (outputNamed? s).isSome
  | .config, s | .context, s => !s.isEmpty
  | .version, s => (versionNumber? s).isSome
  | _, _ => true

end OptionName

/-- The options that may stand on either level. -/
def programOptions : List OptionName := [.output, .quiet, .config]

/-! ## One level -/

/-- What may stand on a level. -/
structure Level where
  options : List OptionName
  /-- Whether this is the level of the program, which ends at the name of a command. -/
  ofProgram : Bool

/-- The names of the commands. -/
def commandNames : List String := ["eval", "check", "regress"]

/-- What stood on a level. -/
structure Given where
  options : List (OptionName × String)
  /-- The argument that is no option. -/
  positional : Option String

/-- Why reading a level ended early. -/
inductive Stop
  | help
  | version
  | misuse

/-- An argument by its form. -/
inductive Form
  /-- Two hyphens and nothing else. -/
  | escape
  /-- A long option, with what follows an equals sign. -/
  | long (name : String) (attached : Option String)
  /-- Short options. -/
  | short (letters : List Char)
  | plain
  deriving DecidableEq

/-- The form of an argument. A lone hyphen is plain. -/
def formOf (argument : String) : Form :=
  match argument.toList with
  | ['-', '-'] => .escape
  | '-' :: '-' :: rest =>
    let name := rest.takeWhile (· != '=')
    match rest.dropWhile (· != '=') with
    | [] => .long (String.ofList name) none
    | _ :: attached => .long (String.ofList name) (some (String.ofList attached))
  | '-' :: c :: rest => .short (c :: rest)
  | _ => .plain

/-- Adds an option, unless it was given before or may not have this value. -/
def Given.addOption (g : Given) (name : OptionName) (value : String) : Except Stop Given :=
  if g.options.any (fun entry => entry.1 == name) || !name.accepts value then .error .misuse
  else .ok { g with options := (name, value) :: g.options }

/-- Adds an argument that is no option: on the level of a command, the one path it takes. -/
def Given.addPositional (g : Given) (level : Level) (argument : String) : Except Stop Given :=
  if level.ofProgram || g.positional.isSome || argument.isEmpty then .error .misuse
  else .ok { g with positional := some argument }

/-- What asking for help comes to: the names of commands may follow. -/
def helpAfter : List String → Stop
  | [] => .help
  | [name] => if name = "help" ∨ commandNames.contains name then .help else .misuse
  | _ => .misuse

/-- Reads a level; gives what stood on it, and the name of the command and what follows if it ended
there. -/
def readLevel (level : Level) : List String → Given → Except Stop (Given × List String)
  | [], g => .ok (g, [])
  | argument :: rest, g =>
    match formOf argument with
    | .escape => do
      let g ← rest.foldlM (fun g argument => g.addPositional level argument) g
      pure (g, [])
    | .short letters =>
      match letters.head? with
      | some 'h' => .error .help
      | some 'V' => .error (if level.ofProgram then .version else .misuse)
      | _ => .error .misuse
    | .plain =>
      if level.ofProgram && commandNames.contains argument then .ok (g, argument :: rest)
      else if level.ofProgram && argument == "help" then .error (helpAfter rest)
      else do readLevel level rest (← g.addPositional level argument)
    | .long name attached =>
      match level.options.find? (·.text == name), attached with
      | none, none =>
        if name = "help" then .error .help
        else if name = "version" ∧ level.ofProgram then .error .version
        else .error .misuse
      | none, some _ => .error .misuse
      | some option, some value =>
        if option.takesValue then do readLevel level rest (← g.addOption option value)
        else .error .misuse
      | some option, none =>
        if option.takesValue then
          match rest with
          | value :: rest =>
            if formOf value = .plain then do readLevel level rest (← g.addOption option value)
            else .error .misuse
          | [] => .error .misuse
        else do readLevel level rest (← g.addOption option "")

/-! ## Both levels -/

/-- The level of the program. -/
def programLevel : Level := ⟨programOptions, true⟩

/-- The level of a command. -/
def commandLevel (name : String) : Level :=
  let own : List OptionName :=
    if name = "eval" then [.context]
    else if name = "regress" then [.rule, .version, .latest]
    else []
  ⟨own ++ programOptions, false⟩

/-- The value of an option on a level. -/
def Given.value? (g : Given) (name : OptionName) : Option String := g.options.lookup name

/-- The command that a level asks for, unless something is missing. -/
def commandOf? (name : String) (g : Given) : Option Command := do
  let path ← g.positional
  if name = "eval" then some (.eval path (g.value? .context))
  else if name = "check" then some (.check path)
  else
    let rule := g.value? .rule
    let version := (g.value? .version).bind OptionName.versionNumber?
    if version.isSome && rule.isNone then none
    else some (.regress path rule version (g.value? .latest).isSome)

/-- What the two levels come to. -/
def invocation? (name : String) (program command : Given) : Option Invocation := do
  let value? (option : OptionName) := (command.value? option).or (program.value? option)
  let chosen ← commandOf? name command
  pure
    { output := ((value? .output).bind OptionName.outputNamed?).getD .text
      quiet := (value? .quiet).isSome
      config := value? .config
      command := chosen }

/-- What a stop comes to. -/
def Stop.parsed : Stop → Parsed
  | .help => .help
  | .version => .version
  | .misuse => .misuse

/-- What a command line comes to. -/
def parse (arguments : List String) : Parsed :=
  match readLevel programLevel arguments ⟨[], none⟩ with
  | .error stop => stop.parsed
  | .ok (_, []) => .misuse
  | .ok (program, name :: rest) =>
    match readLevel (commandLevel name) rest ⟨[], none⟩ with
    | .error stop => stop.parsed
    | .ok (command, _) =>
      match invocation? name program command with
      | some i => .run i
      | none => .misuse

end DecisionRules.CommandLine
