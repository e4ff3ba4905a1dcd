import DecisionRules.Value.Basic

/-!
# Rule/Trace — the steps of an evaluation

A step records one operator node that was evaluated: where it stands, what it gave and why. Its
children are the nodes evaluated on the way to its result, in order, so that an evaluation leaves a
forest. Steps are listed in pre-order, a step before its children; `count` is the length of that
listing and `find?` its first hit.
-/

namespace DecisionRules

/-- One operator node that was evaluated. -/
structure TraceStep where
  /-- Where the node stands, from the root. -/
  path : String
  /-- The name of its operator. -/
  operator : String
  /-- The value it gave. -/
  result : Value
  /-- What the result was computed from. -/
  arguments : Option Value
  /-- The nodes evaluated on the way. -/
  children : List TraceStep
  deriving Inhabited

namespace TraceStep

mutual

/-- The number of steps in a subtree. -/
def count : TraceStep → Nat
  | ⟨_, _, _, _, children⟩ => 1 + countAll children
  termination_by structural s => s

/-- The number of steps in a forest. -/
def countAll : List TraceStep → Nat
  | [] => 0
  | s :: rest => s.count + countAll rest
  termination_by structural forest => forest

end

mutual

/-- The steps of a subtree in pre-order. -/
def listing : TraceStep → List TraceStep
  | ⟨path, op, result, arguments, children⟩ =>
    ⟨path, op, result, arguments, children⟩ :: listAll children
  termination_by structural s => s

/-- The steps of a forest in pre-order. -/
def listAll : List TraceStep → List TraceStep
  | [] => []
  | s :: rest => s.listing ++ listAll rest
  termination_by structural forest => forest

end

theorem listing_eq (s : TraceStep) : s.listing = s :: listAll s.children := by
  rcases s with ⟨path, operator, result, arguments, children⟩
  rfl

theorem listAll_append (before after : List TraceStep) :
    listAll (before ++ after) = listAll before ++ listAll after := by
  induction before with
  | nil => rfl
  | cons s rest ih => rw [List.cons_append, listAll, ih, listAll, List.append_assoc]

/-- A forest is part of its listing. -/
theorem mem_listAll {s : TraceStep} : ∀ {forest : List TraceStep}, s ∈ forest → s ∈ listAll forest
  | t :: rest, h => by
    rw [listAll, List.mem_append, listing_eq]
    rcases List.mem_cons.mp h with rfl | h
    · exact .inl List.mem_cons_self
    · exact .inr (mem_listAll h)

mutual

/-- The first step of a subtree that applies an operator. -/
def find? (operator : String) : TraceStep → Option TraceStep
  | ⟨path, op, result, arguments, children⟩ =>
    if op = operator then some ⟨path, op, result, arguments, children⟩
    else findFirst? operator children
  termination_by structural s => s

/-- The first step of a forest that applies an operator. -/
def findFirst? (operator : String) : List TraceStep → Option TraceStep
  | [] => none
  | s :: rest => (s.find? operator).or (findFirst? operator rest)
  termination_by structural forest => forest

end

end TraceStep

end DecisionRules
