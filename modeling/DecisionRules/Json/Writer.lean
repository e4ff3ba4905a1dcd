import DecisionRules.Json.NumberText
import DecisionRules.Json.Quoted

/-!
# Json/Writer — from a document to its text

Two layouts: `Json.write` without any blanks, and `Json.pretty` with one item to a line and two
spaces for each level. An empty array or object stays on one line in both.
-/

namespace DecisionRules.Json

/-- Joins texts with a separator between them. -/
def joinWith (separator : List Char) : List (List Char) → List Char
  | [] => []
  | [text] => text
  | text :: rest => text ++ separator ++ joinWith separator rest

/-- A string with its quotation marks. -/
def stringText (s : String) : List Char := Quoted.quote s.toList

/-- A document that holds no other. -/
def scalarText : Json → List Char
  | .null => ['n', 'u', 'l', 'l']
  | .bool true => ['t', 'r', 'u', 'e']
  | .bool false => ['f', 'a', 'l', 's', 'e']
  | .number n => n.text
  | .string s => stringText s
  | _ => []

/-! ## Compact -/

mutual

/-- The text of a document, without blanks. -/
def compact : Json → List Char
  | .array items => '[' :: joinWith [','] (compactItems items) ++ [']']
  | .object entries => '{' :: joinWith [','] (compactEntries entries) ++ ['}']
  | j => scalarText j
  termination_by structural j => j

/-- The text of each item. -/
def compactItems : List Json → List (List Char)
  | [] => []
  | j :: rest => j.compact :: compactItems rest
  termination_by structural items => items

/-- The text of each entry: key, colon, value. -/
def compactEntries : List (String × Json) → List (List Char)
  | [] => []
  | (k, j) :: rest => (stringText k ++ ':' :: j.compact) :: compactEntries rest
  termination_by structural entries => entries

end

/-- The text of a document, without blanks. -/
def write (j : Json) : String := String.ofList j.compact

/-! ## One item to a line -/

/-- A new line, indented by two spaces for each level. -/
def newLine (level : Nat) : List Char := '\n' :: List.replicate (2 * level) ' '

/-- Items between brackets, each on a line of its own one level further in. -/
def block (opening closing : Char) (level : Nat) (items : List (List Char)) : List Char :=
  if items.isEmpty then [opening, closing]
  else
    opening :: newLine (level + 1) ++ joinWith (',' :: newLine (level + 1)) items ++
      newLine level ++ [closing]

mutual

/-- The text of a document whose first line is already indented to `level`. -/
def spread (level : Nat) : Json → List Char
  | .array items => block '[' ']' level (spreadItems (level + 1) items)
  | .object entries => block '{' '}' level (spreadEntries (level + 1) entries)
  | j => scalarText j
  termination_by structural j => j

/-- The text of each item. -/
def spreadItems (level : Nat) : List Json → List (List Char)
  | [] => []
  | j :: rest => j.spread level :: spreadItems level rest
  termination_by structural items => items

/-- The text of each entry: key, colon and a space, value. -/
def spreadEntries (level : Nat) : List (String × Json) → List (List Char)
  | [] => []
  | (k, j) :: rest => (stringText k ++ ':' :: ' ' :: j.spread level) :: spreadEntries level rest
  termination_by structural entries => entries

end

/-- The text of a document, one item to a line. -/
def pretty (j : Json) : String := String.ofList (j.spread 0)

end DecisionRules.Json
