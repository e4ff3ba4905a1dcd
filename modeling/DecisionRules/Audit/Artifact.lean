import DecisionRules.KeyMap
import DecisionRules.Rule.Trace
import DecisionRules.Time.Timestamp

/-!
# Audit/Artifact — records of evaluations that happened

An artifact holds everything an evaluation depended on and everything it gave, as it was at the
time. A store of artifacts only ever grows, until it is cleared as a whole. It keeps them twice: in
the order in which they were recorded, and in an index by their ids, where looking one up does not
go through all of them. Every operation writes both.
-/

namespace DecisionRules

/-- The record of one evaluation. -/
structure Artifact where
  id : String
  /-- The rule that was evaluated, if one was named. -/
  stableId : Option String
  version : Option Nat
  definition : Value
  context : Value
  result : Value
  trace : List TraceStep
  createdAt : Timestamp

/-- What a caller is told about an artifact. -/
structure Receipt where
  id : String
  createdAt : Timestamp
  stableId : Option String
  version : Option Nat

/-- The receipt for an artifact. -/
def Artifact.receipt (a : Artifact) : Receipt := ⟨a.id, a.createdAt, a.stableId, a.version⟩

/-- Artifacts that can be listed in the order in which they were recorded and looked up by id. -/
structure ArtifactStore where
  /-- The artifacts, oldest first. -/
  artifacts : List Artifact
  /-- The artifact under each id. -/
  byId : KeyMap Artifact

namespace ArtifactStore

/-- The store without artifacts. -/
def empty : ArtifactStore := ⟨[], KeyMap.empty⟩

/-- Enters an artifact under its id, and adds it after all others. -/
def record (s : ArtifactStore) (a : Artifact) : ArtifactStore :=
  ⟨s.artifacts ++ [a], s.byId.insert a.id a⟩

/-- Empties the list and the index. -/
def clear (s : ArtifactStore) : ArtifactStore :=
  { s with artifacts := [], byId := KeyMap.empty }

/-- The artifact with an id. -/
def get? (s : ArtifactStore) (id : String) : Option Artifact := s.byId.get? id

/-- The artifacts of a rule, in order. -/
def ofRule (s : ArtifactStore) (stableId : String) : List Artifact :=
  s.artifacts.filter (·.stableId == some stableId)

/-- How many artifacts there are. -/
def size (s : ArtifactStore) : Nat := s.artifacts.length

/-- Whether there are none. -/
def isEmpty (s : ArtifactStore) : Bool := s.size == 0

end ArtifactStore

end DecisionRules
