import DecisionRules.CommandLine.Run
import Std.Time.DateTime.Timestamp

/-!
# Main — the program

Reads the files that the command line names, looks at the clock, draws random names, and leaves the
rest to `CommandLine.Invocation.run`, with decimals rounded to the nearest double.
-/

namespace DecisionRules.Program

open CommandLine

/-- How to use the program. -/
def usage : String := unlines
  ["Rulebook decision rule toolkit",
    "",
    "Usage: rulebook [OPTIONS] <COMMAND>",
    "",
    "Commands:",
    "  eval <EXPR> [--context <FILE>]    Evaluate an expression and print the trace",
    "  check <EXPR>                      Check an expression for structural problems",
    "  regress <CATALOG> [--rule <ID> [--version <N>]] [--latest]",
    "                                    Run the regression cases of a catalog file",
    "",
    "Options:",
    "  --output <text|json>    Output format",
    "  --quiet                 Suppress non-essential output",
    "  --config <FILE>         Path to a TOML configuration file"]

/-- The text of a file, if it can be read. -/
def readFile? (path : String) : IO (Option String) := do
  try
    return some (← IO.FS.readFile path)
  catch _ => return none

/-- A random name in the form of a version 4 UUID. -/
def randomName : IO String := do
  let bytes ← IO.getRandomBytes 16
  let hex (b : UInt8) : List Char :=
    [Quoted.hexDigit (b.toNat / 16), Quoted.hexDigit (b.toNat % 16)]
  let stamped := bytes.toList.zipIdx.map fun (b, i) =>
    if i = 6 then b % 16 + 64 else if i = 8 then b % 64 + 128 else b
  let digits := stamped.flatMap hex
  let part (start length : Nat) : String := String.ofList ((digits.drop start).take length)
  return "-".intercalate [part 0 8, part 8 4, part 12 4, part 16 4, part 20 12]

/-- What is wrong with a file. -/
def describe : Trouble → String
  | .unreadableSettings _ => "cannot be read"
  | .invalidSettings _ => "not a settings file"
  | .invalidJson _ => "not JSON of the expected shape"

/-- Everything that a run depends on. A run reads the clock once and needs only one name that is
shown; names beyond the first are told apart by a number. -/
def surroundings (i : Invocation) : IO Surroundings := do
  let files ← i.files.mapM fun path => return (path, ← readFile? path)
  let now ← Std.Time.Timestamp.now
  let name ← randomName
  return {
    file := fun path => (files.lookup path).join
    sources :=
      { time := fun _ => Timestamp.utc now.toNanosecondsSinceUnixEpoch.val
        name := fun n => if n = 0 then name else name ++ "-" ++ toString n }
    detail := describe }

/-- Runs the program. -/
def run (arguments : List String) : IO UInt32 := do
  match parse arguments with
  | .help => do
    IO.print usage
    return 0
  | .version => do
    IO.print versionText
    return 0
  | .misuse => do
    IO.eprint usage
    return 2
  | .run i => do
    let outcome := @Invocation.run .toNearest i (← surroundings i)
    IO.print outcome.stdout
    IO.eprint outcome.stderr
    return outcome.code.toUInt32

end DecisionRules.Program

/-- The program. -/
def main (arguments : List String) : IO UInt32 := DecisionRules.Program.run arguments
