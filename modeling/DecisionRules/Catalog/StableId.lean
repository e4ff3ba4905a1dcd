/-!
# Catalog/StableId — the names under which rules are kept

A stable id has 3 to 64 bytes, starts with an ASCII letter or digit, and goes on with ASCII letters,
digits, underscores and hyphens. The rule is about bytes; since none of the bytes allowed is part of
a longer character, it comes to the same for characters.
-/

namespace DecisionRules.StableId

/-- An ASCII letter or digit. -/
def isAlphanumeric (b : UInt8) : Bool :=
  (48 ≤ b && b ≤ 57) || (65 ≤ b && b ≤ 90) || (97 ≤ b && b ≤ 122)

/-- A byte that may stand after the first: an ASCII letter or digit, `_` or `-`. -/
def isInner (b : UInt8) : Bool := isAlphanumeric b || b == 95 || b == 45

/-- The shortest length in bytes. -/
def minLength : Nat := 3

/-- The greatest length in bytes. -/
def maxLength : Nat := 64

/-- Whether the bytes of a text are those of a stable id. -/
def isValidBytes (bytes : List UInt8) : Bool :=
  decide (minLength ≤ bytes.length ∧ bytes.length ≤ maxLength) &&
    match bytes with
    | [] => false
    | first :: rest => isAlphanumeric first && rest.all isInner

/-- Whether a text is a stable id. -/
def isValid (id : String) : Bool := isValidBytes id.toUTF8.toList

end DecisionRules.StableId
