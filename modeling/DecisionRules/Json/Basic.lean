import DecisionRules.KeyMap
import DecisionRules.Number.Binary64

/-!
# Json/Basic — JSON documents as written

A `Json` keeps what the text says: the order of an object's entries, keys that repeat, and whether
a number was written as an integer. Two readings of a document live on top of it, each with its own
policy for repeated keys: `Json.normalize` here, which sorts the keys, and the rule values, which
keep their order.
-/

namespace DecisionRules

/-- A JSON number: an integer of at most sixty-four bits stays an integer, anything else is a
double. -/
inductive Number
  /-- Written without point and exponent. -/
  | integer (n : Int)
  /-- Any other number. -/
  | double (x : Float)

/-- A JSON document, entries in the order of the text. -/
inductive Json
  | null
  | bool (b : Bool)
  | number (n : Number)
  | string (s : String)
  | array (items : List Json)
  | object (entries : List (String × Json))
  deriving Inhabited

namespace Number

/-- The double a number denotes; integers beyond `2 ^ 53` are rounded. -/
def toFloat : Number → Float
  | .integer n => Binary64.ofInt n
  | .double x => x

/-- The largest absolute value up to which every integer is a double. -/
def exactIntegerLimit : Nat := Nat.pow 2 53

/-- How a double is written: as an integer if it is one of at most `2 ^ 53`, as a double if it is
finite, and not as a number at all otherwise. -/
def ofFloat? (x : Float) : Option Number :=
  match Binary64.toInt? x with
  | some n =>
    if n.natAbs ≤ exactIntegerLimit then some (.integer n) else some (.double x)
  | none => if Binary64.isFinite x then some (.double x) else none

end Number

namespace Json

/-! ## Nesting -/

mutual

/-- How many arrays and objects are open at the deepest point. -/
def depth : Json → Nat
  | .array items => depthOfItems items + 1
  | .object entries => depthOfEntries entries + 1
  | _ => 0
  termination_by structural j => j

/-- The greatest depth among the items. -/
def depthOfItems : List Json → Nat
  | [] => 0
  | j :: rest => max j.depth (depthOfItems rest)
  termination_by structural items => items

/-- The greatest depth among the values of the entries. -/
def depthOfEntries : List (String × Json) → Nat
  | [] => 0
  | (_, j) :: rest => max j.depth (depthOfEntries rest)
  termination_by structural entries => entries

end

/-! ## Keys in order -/

mutual

/-- The document with the keys of every object sorted, the last of equal keys staying: two
documents that differ only in the order of their keys have the same normal form. -/
def normalize : Json → Json
  | .array items => .array (normalizeItems items)
  | .object entries => .object (KeyMap.sortEntries (normalizeEntries entries))
  | j => j
  termination_by structural j => j

/-- `normalize` on every item. -/
def normalizeItems : List Json → List Json
  | [] => []
  | j :: rest => j.normalize :: normalizeItems rest
  termination_by structural items => items

/-- `normalize` on the value of every entry. -/
def normalizeEntries : List (String × Json) → List (String × Json)
  | [] => []
  | (k, j) :: rest => (k, j.normalize) :: normalizeEntries rest
  termination_by structural entries => entries

end

/-! ## Looking inside -/

/-- The text of a string. -/
def string? : Json → Option String
  | .string s => some s
  | _ => none

/-- The truth value of a `true` or `false`. -/
def bool? : Json → Option Bool
  | .bool b => some b
  | _ => none

/-- The items of an array. -/
def items? : Json → Option (List Json)
  | .array items => some items
  | _ => none

/-- The entries of an object. -/
def entries? : Json → Option (List (String × Json))
  | .object entries => some entries
  | _ => none

/-- The integer that a number was written as. -/
def integer? : Json → Option Int
  | .number (.integer n) => some n
  | _ => none

/-- The natural below `bound` that a number was written as. -/
def natBelow? (bound : Nat) (j : Json) : Option Nat :=
  match j.integer? with
  | some n => if 0 ≤ n ∧ n.toNat < bound then some n.toNat else none
  | none => none

end Json

end DecisionRules
