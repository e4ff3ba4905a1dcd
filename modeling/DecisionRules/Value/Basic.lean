import DecisionRules.Json.Basic

/-!
# Value/Basic — the values that rules are made of

Expressions, contexts and results share one type. Every number is a double, truth values are no
numbers, and an object remembers the order in which its keys came.

The entries of an object are a list, and `Value.WellFormed` says what every operation here keeps: no
object repeats a key, at any depth. Look-up takes the first entry with a key, `insert` keeps the
position of a key it finds, and equality (`==`) compares objects as sets of entries.
-/

namespace DecisionRules

/-- A value in the shape of JSON. -/
inductive Value
  | null
  | bool (b : Bool)
  | number (x : Float)
  | string (s : String)
  | array (items : List Value)
  | object (entries : List (String × Value))
  deriving Inhabited

namespace Value

/-- The object without entries, the context of a rule that is given none. -/
def emptyObject : Value := .object []

/-- What a value is called in messages. -/
def typeName : Value → String
  | .null => "null"
  | .bool _ => "boolean"
  | .number _ => "number"
  | .string _ => "string"
  | .array _ => "array"
  | .object _ => "object"

/-- Whether a value counts as true: `null`, `false`, zero of either sign, and everything empty do
not; the number that is not a number does. -/
def truthy : Value → Bool
  | .null => false
  | .bool b => b
  | .number x => x != 0
  | .string s => !s.isEmpty
  | .array items => !items.isEmpty
  | .object entries => !entries.isEmpty

/-- Whether a value is `null`. -/
def isNull : Value → Bool
  | .null => true
  | _ => false

/-- The text of a string. -/
def string? : Value → Option String
  | .string s => some s
  | _ => none

/-- The double of a number. -/
def number? : Value → Option Float
  | .number x => some x
  | _ => none

/-- The items of an array. -/
def items? : Value → Option (List Value)
  | .array items => some items
  | _ => none

/-- The entries of an object. -/
def entries? : Value → Option (List (String × Value))
  | .object entries => some entries
  | _ => none

/-- The number that an integer is, rounded if it is no double. -/
def ofInt (n : Int) : Value := .number (Binary64.ofInt n)

/-! ## Objects -/

/-- Gives a key a value: in place if the key is there, at the end otherwise. -/
def insert (key : String) (value : Value) : List (String × Value) → List (String × Value)
  | [] => [(key, value)]
  | (k, v) :: rest => if k = key then (key, value) :: rest else (k, v) :: insert key value rest

/-- The entries with repeated keys merged: each key stands where it first came and has the value
that came last. -/
def ofEntries (entries : List (String × Value)) : List (String × Value) :=
  entries.foldl (fun merged (k, v) => insert k v merged) []

mutual

/-- No object repeats a key, at any depth. -/
def WellFormed : Value → Prop
  | .array items => WellFormedItems items
  | .object entries => (entries.map Prod.fst).Nodup ∧ WellFormedEntries entries
  | _ => True
  termination_by structural v => v

/-- Every item is well-formed. -/
def WellFormedItems : List Value → Prop
  | [] => True
  | v :: rest => v.WellFormed ∧ WellFormedItems rest
  termination_by structural items => items

/-- The value of every entry is well-formed. -/
def WellFormedEntries : List (String × Value) → Prop
  | [] => True
  | (_, v) :: rest => v.WellFormed ∧ WellFormedEntries rest
  termination_by structural entries => entries

end

/-! ## Equality

Arrays are equal item by item. Objects are equal if they have equally many entries and every entry
of the left one has an equal partner under its key in the right one. -/

mutual

/-- Structural equality, which ignores the order of keys; numbers compare as doubles do. -/
def beq : Value → Value → Bool
  | .null, .null => true
  | .bool a, .bool b => a == b
  | .number x, .number y => x == y
  | .string s, .string t => s == t
  | .array xs, .array ys => beqItems xs ys
  | .object xs, .object ys => xs.length == ys.length && matchesEntries xs ys
  | _, _ => false
  termination_by structural v => v

/-- Item-by-item equality of two lists. -/
def beqItems : List Value → List Value → Bool
  | [], [] => true
  | x :: xs, y :: ys => x.beq y && beqItems xs ys
  | _, _ => false
  termination_by structural items => items

/-- Whether every entry on the left has an equal value under its key on the right. -/
def matchesEntries : List (String × Value) → List (String × Value) → Bool
  | [], _ => true
  | (k, v) :: rest, ys =>
    (match ys.lookup k with
      | some w => v.beq w
      | none => false) && matchesEntries rest ys
  termination_by structural entries => entries

end

instance : BEq Value := ⟨beq⟩

end Value

end DecisionRules
