import DecisionRules.Catalog.Basic

/-!
# Catalog/InPlace — changing a catalog in place

`Catalog.append`, `Catalog.publish` and `Catalog.replaceCases` say what a change comes to. Here the
changes are carried out on a catalog that is written to step by step, and what one step has written
stays, also if a later one fails. So every check comes before the first write.
-/

namespace DecisionRules.Catalog

/-- Work on a catalog. It may fail, and what it has written by then stays. -/
abbrev Work (α : Type) := ExceptT CatalogError (StateM Catalog) α

namespace Work

/-- The outcome of work on a catalog, and the catalog as the work leaves it. -/
def carryOut {α : Type} (work : Work α) (c : Catalog) : Except CatalogError α × Catalog :=
  StateT.run (ExceptT.run work) c

/-! ## Steps -/

/-- Reads the versions of a rule. -/
def versions (id : String) : Work (List RuleVersion) := do
  let c ← getThe Catalog
  MonadExcept.ofExcept (c.versions id)

/-- Writes the versions of a rule. -/
def write (id : String) (versions : List RuleVersion) : Work Unit :=
  modify fun c => ⟨c.rules.insert id versions⟩

/-- Reads the versions of a rule; one that is not there is made first, without any. -/
def versionsOrNew (id : String) : Work (List RuleVersion) := do
  let c ← getThe Catalog
  match c.rules.get? id with
  | some versions => pure versions
  | none =>
    write id []
    pure []

/-- Where in a version list a number stands. -/
def position (id : String) (number : Nat) (versions : List RuleVersion) : Work Nat :=
  match versions.findIdx? (·.version == number) with
  | some i => pure i
  | none => throw (.versionNotFound id number)

/-- Changes the version at a position of the list of a rule, and gives it back. -/
def changeAt (id : String) (number i : Nat) (f : RuleVersion → RuleVersion) : Work RuleVersion := do
  let versions ← Work.versions id
  match versions[i]? with
  | some v =>
    write id (versions.set i (f v))
    pure (f v)
  | none => throw (.versionNotFound id number)

/-! ## Changes -/

/-- Appends the next version of a rule. -/
def append (d : RuleDraft) (now : Timestamp) : Work RuleVersion := do
  let versions ← versionsOrNew d.stableId
  let made := draftVersion d (nextNumber versions) now
  write d.stableId (versions ++ [made])
  pure made

/-- Puts a version in force, once the one that was in force no longer is. -/
def publish (id : String) (number : Nat) (notes : Option String) (now : Timestamp) :
    Work RuleVersion := do
  let versions ← Work.versions id
  let i ← position id number versions
  write id (versions.map demote)
  changeAt id number i (promote notes now)

/-- Gives a version other regression cases. -/
def replaceCases (id : String) (number : Nat) (cases : List RegressionCase) (now : Timestamp) :
    Work RuleVersion := do
  let versions ← Work.versions id
  let i ← position id number versions
  changeAt id number i fun v => { v with regressionCases := cases, updatedAt := now }

end Work

end DecisionRules.Catalog
