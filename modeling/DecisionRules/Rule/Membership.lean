import DecisionRules.Rule.Term

/-!
# Rule/Membership — whether one value is in another

A text is searched for another text, an array for an equal item, and an object for a key.
-/

namespace DecisionRules.Rule

/-- Whether `part` stands somewhere in `whole`, without gaps. -/
def isInfix (part : List Char) : List Char → Bool
  | [] => part.isEmpty
  | c :: cs => part.isPrefixOf (c :: cs) || isInfix part cs

/-- Whether a value is in another; `none` if nothing is ever in the other. -/
def isIn? (needle : Value) : Value → Option Bool
  | .string s => some (isInfix needle.displayText.toList s.toList)
  | .array items => some (items.any (· == needle))
  | .object entries =>
    match needle with
    | .string key => some ((entries.lookup key).isSome)
    | _ => some false
  | _ => none

/-- `in`: whether the first argument is in the second. -/
def membership (arguments : Arguments) (place : Place) : Recorded Applied := do
  let (needle, haystack) ← arguments.asPair .membership .notPair
  let needle ← needle.run (place.child .needle)
  let haystack ← haystack.run (place.child .haystack)
  let found ← Recorded.ofOption (.invalidArguments .membership (.notSearchable haystack))
    (isIn? needle haystack)
  pure ⟨.bool found, .object [("needle", needle), ("haystack", haystack)]⟩

end DecisionRules.Rule
