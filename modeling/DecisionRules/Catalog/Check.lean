import DecisionRules.Catalog.StableId
import DecisionRules.Catalog.Version
import DecisionRules.Text.Blank

/-!
# Catalog/Check — what a catalog refuses to store

The checks look at the form of a draft only: its id, its name, whether it defines anything, and
whether its regression cases have names. The first fault in that order is reported.
-/

namespace DecisionRules

/-- What is wrong with a draft or with regression cases. -/
inductive RuleFault
  | badStableId (id : String)
  | emptyName
  | emptyDefinition
  /-- The case at this position has no name. -/
  | unnamedCase (position : Nat)
  | noCases
  deriving DecidableEq

namespace RuleFault

/-- The fault in words. -/
def message : RuleFault → String
  | .badStableId id =>
    "stable id '" ++ id ++ "' must be 3-64 characters, start alphanumeric, and contain only " ++
      "alphanumerics, '_' or '-'"
  | .emptyName => "rule name cannot be empty"
  | .emptyDefinition => "rule definition cannot be empty"
  | .unnamedCase position => "regression case " ++ toString position ++ " has an empty name"
  | .noCases => "at least one regression case is required"

end RuleFault

/-- Why a catalog does not do what it is asked to. -/
inductive CatalogError
  /-- No rule has this id. -/
  | ruleNotFound (stableId : String)
  /-- The rule has no such version. -/
  | versionNotFound (stableId : String) (version : Nat)
  /-- What should be stored is not in order. -/
  | invalidRule (fault : RuleFault)
  deriving DecidableEq

namespace CatalogError

/-- The error in words. -/
def message : CatalogError → String
  | .ruleNotFound id => "rule not found: " ++ id
  | .versionNotFound id version => "rule version not found: " ++ id ++ ":" ++ toString version
  | .invalidRule fault => "invalid rule: " ++ fault.message

end CatalogError

/-- Whether a value defines nothing: `null` and everything empty, but no truth value and no
number. -/
def Value.isEmptyDefinition : Value → Bool
  | .null => true
  | .string s => s.isEmpty
  | .array items => items.isEmpty
  | .object entries => entries.isEmpty
  | _ => false

/-- Whether every case has a name; else the position of the first that has none. -/
def checkCaseNames (cases : List RegressionCase) : Except RuleFault Unit :=
  match cases.findIdx? (·.name.isEmpty) with
  | some position => .error (.unnamedCase position)
  | none => .ok ()

/-- Whether a draft is in order. -/
def RuleDraft.check (d : RuleDraft) : Except RuleFault Unit :=
  if !StableId.isValid d.stableId then .error (.badStableId d.stableId)
  else if Text.isBlankText d.name then .error .emptyName
  else if d.definition.isEmptyDefinition then .error .emptyDefinition
  else checkCaseNames d.regressionCases

end DecisionRules
