import DecisionRules.Number.Integer
import DecisionRules.Value.Basic

/-!
# Value/Path — addressing a part of a value

A path is a text of segments with dots between them. A segment picks the entry of an object with
that key, or the item of an array at the position that its digits write. The empty path is the
value itself.
-/

namespace DecisionRules.Value

/-- The pieces between the dots, at least one. -/
def splitAtDots : List Char → List (List Char)
  | [] => [[]]
  | c :: cs =>
    if c = '.' then [] :: splitAtDots cs
    else
      match splitAtDots cs with
      | [] => [[c]]
      | segment :: rest => (c :: segment) :: rest

/-- The segments of a path. -/
def segments (path : String) : List String := (splitAtDots path.toList).map String.ofList

/-- The array position that a segment writes: ASCII digits only, leading zeros allowed, and no more
than sixty-four bits. -/
def position? (segment : String) : Option Nat :=
  let digits := segment.toList
  if digits.isEmpty || !digits.all Number.isDigit then none else Integer.unsigned? segment

/-- The part of a value that a single segment picks. -/
def child? (v : Value) (segment : String) : Option Value :=
  match v with
  | .object entries => entries.lookup segment
  | .array items => (position? segment).bind (items[·]?)
  | _ => none

/-- The part of a value that segments pick one after the other. -/
def walk (v : Value) : List String → Option Value
  | [] => some v
  | segment :: rest => (v.child? segment).bind (walk · rest)

/-- The part of a value at a path. -/
def resolve (v : Value) (path : String) : Option Value :=
  if path.isEmpty then some v else v.walk (segments path)

/-- Whether there is something other than `null` at a path. -/
def hasAt (v : Value) (path : String) : Bool :=
  match v.resolve path with
  | some found => !found.isNull
  | none => false

end DecisionRules.Value
