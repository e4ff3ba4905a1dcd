import DecisionRules.Catalog.Check

/-!
# Catalog/Basic — a catalog of rules

A catalog keeps, for each stable id, the versions of that rule in the order of their numbers. What a
change of it comes to is given with the time as an argument: the catalog afterwards, or an error.
How the change is carried out is for Catalog/InPlace.
-/

namespace DecisionRules

/-- The versions of every rule, oldest first. -/
structure Catalog where
  rules : KeyMap (List RuleVersion)

namespace Catalog

/-- The catalog without rules. -/
def empty : Catalog := ⟨KeyMap.empty⟩

/-! ## Asking -/

/-- The versions of a rule, oldest first. -/
def versions (c : Catalog) (id : String) : Except CatalogError (List RuleVersion) :=
  match c.rules.get? id with
  | some versions => .ok versions
  | none => .error (.ruleNotFound id)

/-- The version in force, if there is one. -/
def publishedOf (versions : List RuleVersion) : Option RuleVersion :=
  versions.find? RuleVersion.isPublished

/-- The version that a choice picks: the one with a given number, else the latest if that is
preferred or none is in force, else the one in force. -/
def select (versions : List RuleVersion) (version : Option Nat) (preferLatest : Bool) :
    Option RuleVersion :=
  match version with
  | some number => versions.find? (·.version == number)
  | none =>
    if preferLatest then versions.getLast? else (publishedOf versions).or versions.getLast?

/-- One version of a rule. -/
def get (c : Catalog) (id : String) (version : Option Nat) (preferLatest : Bool) :
    Except CatalogError RuleVersion := do
  let versions ← c.versions id
  match select versions version preferLatest with
  | some found => .ok found
  | none =>
    match version with
    | some number => .error (.versionNotFound id number)
    | none => .error (.ruleNotFound id)

/-- A rule at a glance; `none` if it has no version. -/
def summary? (id : String) (versions : List RuleVersion) : Option RuleSummary :=
  versions.getLast?.map fun latest =>
    { stableId := id
      name := latest.name
      description := latest.description
      labels := latest.labels
      latestVersion := latest.version
      publishedVersion := (publishedOf versions).map (·.version)
      status := latest.status }

/-- Every rule at a glance, in the order of the ids. -/
def listing (c : Catalog) : RuleListing :=
  let rules := c.rules.entries.filterMap fun (id, versions) => summary? id versions
  ⟨rules.length, rules⟩

/-! ## Changing -/

/-- The number of the version that comes after these. It does not wrap around: a counter of
thirty-two bits gives the same number unless the latest is `2 ^ 32 - 1`, and a session has to ask
for as many versions of the rule to get there (`Session.version_le_of_run`). -/
def nextNumber (versions : List RuleVersion) : Nat :=
  match versions.getLast? with
  | some latest => latest.version + 1
  | none => 1

/-- The version that a draft becomes. -/
def draftVersion (d : RuleDraft) (number : Nat) (now : Timestamp) : RuleVersion :=
  { stableId := d.stableId
    version := number
    name := d.name
    description := d.description
    labels := d.labels
    definition := d.definition
    status := .draft
    createdAt := now
    updatedAt := now
    publishedAt := none
    revisionNotes := d.revisionNotes
    regressionCases := d.regressionCases }

/-- Appends the next version of a rule, without any check. -/
def append (c : Catalog) (d : RuleDraft) (now : Timestamp) : RuleVersion × Catalog :=
  let versions := (c.rules.get? d.stableId).getD []
  let made := draftVersion d (nextNumber versions) now
  (made, ⟨c.rules.insert d.stableId (versions ++ [made])⟩)

/-- A version that is no longer in force. -/
def demote (v : RuleVersion) : RuleVersion :=
  if v.isPublished then { v with status := .draft, publishedAt := none } else v

/-- A version put in force; notes that are not empty replace the old ones. -/
def promote (notes : Option String) (now : Timestamp) (v : RuleVersion) : RuleVersion :=
  { v with
    status := .published
    publishedAt := some now
    updatedAt := now
    revisionNotes :=
      match notes with
      | some text => if text.isEmpty then v.revisionNotes else some text
      | none => v.revisionNotes }

/-- Changes the first version with a number and leaves the others as they are; gives the changed
version and all of them. -/
def changeFirst (number : Nat) (f : RuleVersion → RuleVersion) :
    List RuleVersion → Option (RuleVersion × List RuleVersion)
  | [] => none
  | v :: rest =>
    if v.version = number then some (f v, f v :: rest)
    else (changeFirst number f rest).map fun (changed, rest) => (changed, v :: rest)

/-- Changes one version of a rule, after `before` has changed all of them. -/
def change (c : Catalog) (id : String) (number : Nat) (before f : RuleVersion → RuleVersion) :
    Except CatalogError (RuleVersion × Catalog) := do
  let versions ← c.versions id
  match changeFirst number f (versions.map before) with
  | some (changed, versions) => .ok (changed, ⟨c.rules.insert id versions⟩)
  | none => .error (.versionNotFound id number)

/-- Puts a version in force, in place of the one that was. -/
def publish (c : Catalog) (id : String) (number : Nat) (notes : Option String) (now : Timestamp) :
    Except CatalogError (RuleVersion × Catalog) :=
  c.change id number demote (promote notes now)

/-- Whether cases may replace those of a version: there are some, and they have names. -/
def checkReplacement (cases : List RegressionCase) : Except CatalogError Unit :=
  if cases.isEmpty then .error (.invalidRule .noCases)
  else (checkCaseNames cases).mapError .invalidRule

/-- Gives a version other regression cases. -/
def replaceCases (c : Catalog) (id : String) (number : Nat) (cases : List RegressionCase)
    (now : Timestamp) : Except CatalogError (RuleVersion × Catalog) :=
  c.change id number (fun v => v)
    fun v => { v with regressionCases := cases, updatedAt := now }

end Catalog

end DecisionRules
