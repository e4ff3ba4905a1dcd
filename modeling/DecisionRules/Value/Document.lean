import DecisionRules.Json.Writer
import DecisionRules.Value.Basic

/-!
# Value/Document — values as JSON

`Value.ofJson` reads a document: numbers become doubles, and of repeated keys the first gives the
position and the last the value. Two encoders go back. `Value.document` keeps the order of the keys
and is what gets printed; `Value.toJson` sorts the keys at every level, so that equal values have
equal documents. Both write an integral double of at most `2 ^ 53` as an integer, and a double that
is not finite as `null`.
-/

namespace DecisionRules.Value

mutual

/-- The value that a document denotes. -/
def ofJson : Json → Value
  | .null => .null
  | .bool b => .bool b
  | .number n => .number n.toFloat
  | .string s => .string s
  | .array items => .array (ofJsonItems items)
  | .object entries => .object (ofEntries (ofJsonEntries entries))
  termination_by structural j => j

/-- The values of the items. -/
def ofJsonItems : List Json → List Value
  | [] => []
  | j :: rest => ofJson j :: ofJsonItems rest
  termination_by structural items => items

/-- The entries with their values, repeats included. -/
def ofJsonEntries : List (String × Json) → List (String × Value)
  | [] => []
  | (k, j) :: rest => (k, ofJson j) :: ofJsonEntries rest
  termination_by structural entries => entries

end

/-- A double as a document. -/
def numberDocument (x : Float) : Json :=
  match Number.ofFloat? x with
  | some n => .number n
  | none => .null

mutual

/-- The document of a value, keys in the order of the value. -/
def document : Value → Json
  | .null => .null
  | .bool b => .bool b
  | .number x => numberDocument x
  | .string s => .string s
  | .array items => .array (documentItems items)
  | .object entries => .object (documentEntries entries)
  termination_by structural v => v

/-- The documents of the items. -/
def documentItems : List Value → List Json
  | [] => []
  | v :: rest => v.document :: documentItems rest
  termination_by structural items => items

/-- The entries with the documents of their values. -/
def documentEntries : List (String × Value) → List (String × Json)
  | [] => []
  | (k, v) :: rest => (k, v.document) :: documentEntries rest
  termination_by structural entries => entries

end

mutual

/-- The document of a value, keys sorted at every level. -/
def toJson : Value → Json
  | .null => .null
  | .bool b => .bool b
  | .number x => numberDocument x
  | .string s => .string s
  | .array items => .array (toJsonItems items)
  | .object entries => .object (KeyMap.sortEntries (toJsonEntries entries))
  termination_by structural v => v

/-- The documents of the items. -/
def toJsonItems : List Value → List Json
  | [] => []
  | v :: rest => v.toJson :: toJsonItems rest
  termination_by structural items => items

/-- The entries with the documents of their values, in the order of the value. -/
def toJsonEntries : List (String × Value) → List (String × Json)
  | [] => []
  | (k, v) :: rest => (k, v.toJson) :: toJsonEntries rest
  termination_by structural entries => entries

end

/-- The compact text of a value. -/
def text (v : Value) : String := v.document.write

/-- The text that substring tests see: a string without its quotation marks, anything else as
printed. -/
def displayText : Value → String
  | .string s => s
  | v => v.text

end DecisionRules.Value
