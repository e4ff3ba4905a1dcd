import DecisionRules.Json.NumberText
import DecisionRules.Json.Quoted

/-!
# Json/Token — the words of a JSON text

`Token.scan` cuts a text into tokens in one pass over its characters. It never fails: what is no
token becomes `unreadable`, and a reader of tokens stops there. A number too large for a double and
a string with half a surrogate pair are tokens, since the grammar has nothing against them, but they
denote nothing; whether they are let pass is up to the reader.

A scalar is the longest one that its word starts with. What is left of the word follows as a token
of its own, so that a reader has taken the scalar before it stops at the rest.
-/

namespace DecisionRules.Json

/-- A word of a JSON text. -/
inductive Token
  | openArray
  | closeArray
  | openObject
  | closeObject
  | comma
  | colon
  /-- `null`, `true`, `false` or a number. -/
  | scalar (j : Json)
  /-- A string, as a value or as a key. -/
  | text (s : String)
  /-- A number that no double comes near. -/
  | hugeNumber
  /-- A string with half a surrogate pair. -/
  | brokenText
  /-- Characters that form no token. -/
  | unreadable

namespace Token

/-- What a scan is in the middle of; letters are kept latest first. -/
inductive Mode
  /-- Between tokens. -/
  | between
  /-- In a word or number. -/
  | word (letters : List Char)
  /-- Inside quotation marks, perhaps right after a backslash. -/
  | quoted (raw : List Char) (afterBackslash : Bool)

/-- The four blank characters of JSON. -/
def isBlank (c : Char) : Bool := c == ' ' || c == '\t' || c == '\n' || c == '\r'

/-- The token of a punctuation mark. -/
def punctuation? (c : Char) : Option Token :=
  if c = '[' then some .openArray
  else if c = ']' then some .closeArray
  else if c = '{' then some .openObject
  else if c = '}' then some .closeObject
  else if c = ',' then some .comma
  else if c = ':' then some .colon
  else none

/-- The characters that end a word. -/
def isDelimiter (c : Char) : Bool := isBlank c || c == '"' || (punctuation? c).isSome

/-- The token of a number. -/
def ofLiteral [Rounding] (l : Number.Literal) : Token :=
  match l.number? with
  | some n => .scalar (.number n)
  | none => .hugeNumber

/-- What is left of a word after a scalar. No reader takes a second token of the same word, whatever
it is. -/
def leftover (letters : List Char) : List Token := if letters.isEmpty then [] else [.unreadable]

/-- The tokens of a word: the scalar that it starts with, and what is left over. -/
def ofWord [Rounding] : List Char → List Token
  | 'n' :: 'u' :: 'l' :: 'l' :: rest => .scalar .null :: leftover rest
  | 't' :: 'r' :: 'u' :: 'e' :: rest => .scalar (.bool true) :: leftover rest
  | 'f' :: 'a' :: 'l' :: 's' :: 'e' :: rest => .scalar (.bool false) :: leftover rest
  | letters =>
    match Number.literal? letters with
    | some (l, rest) => ofLiteral l :: leftover rest
    | none => [.unreadable]

/-- The token of what stands between quotation marks. -/
def ofRaw (raw : List Char) : Token :=
  match Quoted.pieces? raw with
  | none => .unreadable
  | some pieces =>
    match Quoted.join? pieces with
    | some s => .text (String.ofList s)
    | none => .brokenText

/-- What a character between tokens begins. -/
def start (c : Char) : List Token × Mode :=
  if isBlank c then ([], .between)
  else if c = '"' then ([], .quoted [] false)
  else
    match punctuation? c with
    | some t => ([t], .between)
    | none => ([], .word [c])

/-- The tokens of a text, from the middle of whatever `mode` says. -/
def scan [Rounding] : Mode → List Char → List Token
  | .between, [] => []
  | .word letters, [] => ofWord letters.reverse
  | .quoted _ _, [] => [.unreadable]
  | .between, c :: cs =>
    let (tokens, mode) := start c
    tokens ++ scan mode cs
  | .word letters, c :: cs =>
    if isDelimiter c then
      let (tokens, mode) := start c
      ofWord letters.reverse ++ (tokens ++ scan mode cs)
    else scan (.word (c :: letters)) cs
  | .quoted raw true, c :: cs => scan (.quoted (c :: raw) false) cs
  | .quoted raw false, c :: cs =>
    if c = '"' then ofRaw raw.reverse :: scan .between cs
    else scan (.quoted (c :: raw) (c == '\\')) cs

end Token

/-- The tokens of a text. -/
def tokens [Rounding] (text : List Char) : List Token := Token.scan .between text

end DecisionRules.Json
