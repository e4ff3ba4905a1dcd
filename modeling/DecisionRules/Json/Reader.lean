import DecisionRules.Json.Token

/-!
# Json/Reader — from a text to a document

The reader is a machine that takes one token at a time. What it has open is a list of holes, each an
array or object with the place in it where a value is still missing. A complete value goes into the
innermost hole. When a token does not fit, the state is exactly what had been read by then. The
error carries both, so that whoever reads a record can tell which of two faults came first.

A policy says how many arrays and objects may be open, and which values are skipped. A skipped value
follows the grammar and nothing more: it may nest without bound, and its numbers and strings need
not denote anything.
-/

namespace DecisionRules.Json

/-- A place inside an open array or object where a value is missing, with what stands before it,
latest first. -/
inductive Hole
  | item (before : List Json)
  | entry (before : List (String × Json)) (key : String)

namespace Reader

/-- What a reader lets pass. -/
structure Policy where
  /-- How many arrays and objects may be open at once. -/
  limit : Nat
  /-- Whether the value for the first of these holes, the innermost, is skipped. -/
  skips : List Hole → Bool

/-- A reader between two tokens. Holes, items and entries are kept latest first. -/
inductive State
  /-- A value comes next. -/
  | value (holes : List Hole)
  /-- An array was just opened: a value or its end comes next. -/
  | firstItem (holes : List Hole)
  /-- An item was read: a comma or the end of the array comes next. -/
  | afterItem (items : List Json) (holes : List Hole)
  /-- An object was just opened: a key or its end comes next. -/
  | firstKey (holes : List Hole)
  /-- A comma was read: a key comes next. -/
  | nextKey (entries : List (String × Json)) (holes : List Hole)
  /-- A key was read: a colon comes next. -/
  | colon (entries : List (String × Json)) (key : String) (holes : List Hole)
  /-- An entry was read: a comma or the end of the object comes next. -/
  | afterEntry (entries : List (String × Json)) (holes : List Hole)
  /-- The document is complete. -/
  | finished (document : Json)

/-- Where a reader stopped, and the token it did not take; none at the end of the text. -/
structure Stop where
  state : State
  token : Option Token

/-- Puts a complete value into the innermost hole. -/
def place (j : Json) : List Hole → State
  | [] => .finished j
  | .item before :: holes => .afterItem (j :: before) holes
  | .entry before key :: holes => .afterEntry ((key, j) :: before) holes

/-- Whether one more array or object may be opened in the innermost hole. -/
def Policy.hasRoom (p : Policy) (holes : List Hole) : Bool :=
  decide (holes.length < p.limit) || p.skips holes

/-- A token where a value belongs. What denotes nothing counts as `null` where a value is
skipped. -/
def readValue (p : Policy) (holes : List Hole) : Token → Option State
  | .scalar j => some (place j holes)
  | .text s => some (place (.string s) holes)
  | .hugeNumber | .brokenText => if p.skips holes then some (place .null holes) else none
  | .openArray => if p.hasRoom holes then some (.firstItem holes) else none
  | .openObject => if p.hasRoom holes then some (.firstKey holes) else none
  | _ => none

/-- A token where a key belongs. A key that denotes nothing counts as empty where values are
skipped. -/
def readKey (p : Policy) (entries : List (String × Json)) (holes : List Hole) :
    Token → Option State
  | .text key => some (.colon entries key holes)
  | .brokenText => if p.skips holes then some (.colon entries "" holes) else none
  | _ => none

/-- One token; `none` if it does not fit. -/
def step (p : Policy) : State → Token → Option State
  | .value holes, t => readValue p holes t
  | .firstItem holes, .closeArray => some (place (.array []) holes)
  | .firstItem holes, t => readValue p (.item [] :: holes) t
  | .afterItem items holes, .comma => some (.value (.item items :: holes))
  | .afterItem items holes, .closeArray => some (place (.array items.reverse) holes)
  | .firstKey holes, .closeObject => some (place (.object []) holes)
  | .firstKey holes, t => readKey p [] holes t
  | .nextKey entries holes, t => readKey p entries holes t
  | .colon entries key holes, .colon => some (.value (.entry entries key :: holes))
  | .afterEntry entries holes, .comma => some (.nextKey entries holes)
  | .afterEntry entries holes, .closeObject => some (place (.object entries.reverse) holes)
  | _, _ => none

/-- Reads the remaining tokens. -/
def run (p : Policy) : State → List Token → Except Stop Json
  | .finished j, [] => .ok j
  | state, [] => .error ⟨state, none⟩
  | state, t :: ts =>
    match step p state t with
    | some next => run p next ts
    | none => .error ⟨state, some t⟩

end Reader

/-- How many arrays and objects may be open at once. -/
def nestingLimit : Nat := 127

/-- The policy that skips nothing. -/
def Reader.Policy.strict (limit : Nat) : Reader.Policy := ⟨limit, fun _ => false⟩

/-- The document that a text writes, as far as a policy lets it pass. -/
def read [Rounding] (p : Reader.Policy) (text : String) : Except Reader.Stop Json :=
  Reader.run p (.value []) (tokens text.toList)

/-- The document that a text writes. -/
def parse [Rounding] (text : String) : Except Reader.Stop Json := read (.strict nestingLimit) text

end DecisionRules.Json
