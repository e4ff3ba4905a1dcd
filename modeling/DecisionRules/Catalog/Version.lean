import DecisionRules.KeyMap
import DecisionRules.Time.Timestamp
import DecisionRules.Value.Basic

/-!
# Catalog/Version — rules and their versions

A rule is known by its stable id and has versions numbered from 1. What a version decides never
changes; only its status, its notes, its regression cases and the times that go with them do.
-/

namespace DecisionRules

/-- Whether a version is the one in force. -/
inductive RuleStatus
  | draft
  | published
  deriving DecidableEq

namespace RuleStatus

/-- The status in words. -/
def name : RuleStatus → String
  | .draft => "draft"
  | .published => "published"

/-- The status with a name. -/
def ofName? (s : String) : Option RuleStatus :=
  if s = "draft" then some .draft else if s = "published" then some .published else none

end RuleStatus

/-- A context with the result that a rule should give in it. -/
structure RegressionCase where
  name : String
  context : Value
  expected : Value
  description : Option String

/-- One version of a rule. -/
structure RuleVersion where
  stableId : String
  /-- The number of the version, without a bound. In JSON there is room for thirty-two bits of it. -/
  version : Nat
  name : String
  description : Option String
  labels : KeyMap String
  definition : Value
  status : RuleStatus
  createdAt : Timestamp
  updatedAt : Timestamp
  publishedAt : Option Timestamp
  revisionNotes : Option String
  regressionCases : List RegressionCase

/-- Whether a version is the one in force. -/
def RuleVersion.isPublished (v : RuleVersion) : Bool := decide (v.status = .published)

/-- What the next version of a rule is made from. -/
structure RuleDraft where
  stableId : String
  name : String
  description : Option String
  definition : Value
  labels : KeyMap String
  revisionNotes : Option String
  regressionCases : List RegressionCase

/-- A rule at a glance: how its latest version presents itself, and which version is in force. -/
structure RuleSummary where
  stableId : String
  name : String
  description : Option String
  labels : KeyMap String
  latestVersion : Nat
  publishedVersion : Option Nat
  status : RuleStatus

/-- The rules of a catalog at a glance. -/
structure RuleListing where
  total : Nat
  rules : List RuleSummary

end DecisionRules
