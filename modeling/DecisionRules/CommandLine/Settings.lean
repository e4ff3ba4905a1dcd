import DecisionRules.Json.Quoted

/-!
# CommandLine/Settings — the settings file

The settings file is in TOML and knows two keys, `log_level` with a string and `prefer_latest` with
a truth value. Either may be missing; any other key, a key given twice, a value of another type, a
table, and anything that is not TOML make the file invalid. So only the part of TOML that can write
these two entries is read: comments, bare and quoted keys, the four forms of strings, and the two
truth values.
-/

namespace DecisionRules

/-- What the settings file can set. -/
structure Settings where
  /-- How much is logged. -/
  logLevel : String
  /-- Whether the latest version of a rule is used rather than the one in force. -/
  preferLatest : Bool

namespace Settings

/-- The settings without a file. -/
def default : Settings := ⟨"warn", false⟩

/-! ## Strings

A string is read by a machine, one character at a time. Strings between three quotation marks may
span lines; up to two more marks before the closing ones belong to the string. -/

/-- Whether a character may stand for itself in a string or comment: no control character but the
tab. -/
def isPrintable (c : Char) : Bool := c == '\t' || (decide (0x20 ≤ c.toNat) && c.toNat != 0x7F)

/-- A form of strings. -/
structure Style where
  /-- The quotation mark. -/
  mark : Char
  /-- Whether backslashes escape. -/
  escapes : Bool
  /-- Whether there are three marks on either side. -/
  long : Bool

/-- What a machine that reads a string is in the middle of. -/
inductive Mode
  | plain
  /-- After a run of marks. -/
  | marks (count : Nat)
  /-- After a carriage return, which must begin a line end. -/
  | carriage
  /-- After a backslash. -/
  | escaped
  /-- In the digits of a code point. -/
  | code (left value : Nat)
  /-- After a backslash and blanks, where a line end must come. -/
  | lineTail
  /-- In the blanks and line ends after a backslash at the end of a line. -/
  | skipping
  /-- After a carriage return there. -/
  | skippedCarriage

/-- What a character does. -/
inductive Move
  /-- It adds characters to the string and the machine goes on. -/
  | goOn (added : List Char) (mode : Mode)
  /-- It closes the string. -/
  | close
  /-- The string was closed before it, and ends with these characters. -/
  | closed (added : List Char)

/-- The character with a code point. -/
def scalar? (n : Nat) : Option Char :=
  if n < 0xD800 ∨ (0xE000 ≤ n ∧ n < 0x110000) then some (Char.ofNat n) else none

/-- A character in the middle of a string. -/
def plainMove (s : Style) (c : Char) : Option Move :=
  if c = s.mark then some (if s.long then .goOn [] (.marks 1) else .close)
  else if c = '\\' ∧ s.escapes then some (.goOn [] .escaped)
  else if c = '\n' ∧ s.long then some (.goOn [c] .plain)
  else if c = '\r' ∧ s.long then some (.goOn [] .carriage)
  else if isPrintable c then some (.goOn [c] .plain)
  else none

/-- A character after a backslash. -/
def escapedMove (s : Style) (c : Char) : Option Move :=
  if c = 'u' then some (.goOn [] (.code 4 0))
  else if c = 'U' then some (.goOn [] (.code 8 0))
  else if c = 'b' then some (.goOn ['\x08'] .plain)
  else if c = 't' then some (.goOn ['\t'] .plain)
  else if c = 'n' then some (.goOn ['\n'] .plain)
  else if c = 'f' then some (.goOn ['\x0c'] .plain)
  else if c = 'r' then some (.goOn ['\r'] .plain)
  else if c = '"' ∨ c = '\\' then some (.goOn [c] .plain)
  else if !s.long then none
  else if c = ' ' ∨ c = '\t' then some (.goOn [] .lineTail)
  else if c = '\n' then some (.goOn [] .skipping)
  else if c = '\r' then some (.goOn [] .skippedCarriage)
  else none

/-- One character. -/
def move (s : Style) : Mode → Char → Option Move
  | .plain, c => plainMove s c
  | .marks count, c =>
    if c = s.mark then
      if count < 5 then some (.goOn [] (.marks (count + 1))) else none
    else if 3 ≤ count then some (.closed (List.replicate (count - 3) s.mark))
    else
      match plainMove s c with
      | some (.goOn added mode) => some (.goOn (List.replicate count s.mark ++ added) mode)
      | other => other
  | .carriage, c => if c = '\n' then some (.goOn [c] .plain) else none
  | .escaped, c => escapedMove s c
  | .code left value, c => do
    let value := value * 16 + (← Quoted.hexValue? c)
    if left = 1 then some (.goOn [← scalar? value] .plain)
    else some (.goOn [] (.code (left - 1) value))
  | .lineTail, c =>
    if c = ' ' ∨ c = '\t' then some (.goOn [] .lineTail)
    else if c = '\n' then some (.goOn [] .skipping)
    else if c = '\r' then some (.goOn [] .skippedCarriage)
    else none
  | .skipping, c =>
    if c = ' ' ∨ c = '\t' ∨ c = '\n' then some (.goOn [] .skipping)
    else if c = '\r' then some (.goOn [] .skippedCarriage)
    else plainMove s c
  | .skippedCarriage, c => if c = '\n' then some (.goOn [] .skipping) else none

/-- What follows a line end. -/
def newline? : List Char → Option (List Char)
  | '\n' :: rest => some rest
  | '\r' :: '\n' :: rest => some rest
  | _ => none

/-- The rest of a string, and what follows it. -/
def restOfString? (s : Style) : Mode → List Char → Option (List Char × List Char)
  | .marks count, [] => if 3 ≤ count then some (List.replicate (count - 3) s.mark, []) else none
  | _, [] => none
  | mode, c :: cs =>
    match move s mode c with
    | none => none
    | some .close => some ([], cs)
    | some (.closed added) => some (added, c :: cs)
    | some (.goOn added mode) =>
      (restOfString? s mode cs).map fun (text, rest) => (added ++ text, rest)

/-- The rest of a string between three marks; a line end right after the opening marks does not
belong to it. -/
def restOfLong? (mark : Char) (escapes : Bool) (cs : List Char) :
    Option (List Char × List Char) :=
  restOfString? ⟨mark, escapes, true⟩ .plain ((newline? cs).getD cs)

/-! ## Entries -/

/-- The text without the blanks that it starts with. -/
def skipBlanks (cs : List Char) : List Char := cs.dropWhile fun c => c == ' ' || c == '\t'

/-- What follows the end of a line on which nothing but blanks and a comment is left. -/
def lineEnd? (cs : List Char) : Option (List Char) :=
  let rest :=
    match skipBlanks cs with
    | '#' :: comment => comment.dropWhile isPrintable
    | rest => rest
  if rest.isEmpty then some [] else newline? rest

/-- The characters of keys without quotation marks. -/
def isBare (c : Char) : Bool :=
  decide (('0' ≤ c ∧ c ≤ '9') ∨ ('a' ≤ c ∧ c ≤ 'z') ∨ ('A' ≤ c ∧ c ≤ 'Z')) || c == '_' || c == '-'

/-- A key, and what follows it. -/
def key? : List Char → Option (List Char × List Char)
  | '"' :: rest => restOfString? ⟨'"', true, false⟩ .plain rest
  | '\'' :: rest => restOfString? ⟨'\'', false, false⟩ .plain rest
  | cs =>
    let letters := cs.takeWhile isBare
    if letters.isEmpty then none else some (letters, cs.dropWhile isBare)

/-- A value that one of the keys can have. -/
inductive Item
  | text (s : String)
  | truth (b : Bool)

/-- A string or truth value, and what follows it. -/
def item? : List Char → Option (Item × List Char)
  | '"' :: '"' :: '"' :: rest => asText (restOfLong? '"' true rest)
  | '\'' :: '\'' :: '\'' :: rest => asText (restOfLong? '\'' false rest)
  | '"' :: rest => asText (restOfString? ⟨'"', true, false⟩ .plain rest)
  | '\'' :: rest => asText (restOfString? ⟨'\'', false, false⟩ .plain rest)
  | 't' :: 'r' :: 'u' :: 'e' :: rest => some (.truth true, rest)
  | 'f' :: 'a' :: 'l' :: 's' :: 'e' :: rest => some (.truth false, rest)
  | _ => none
where
  /-- Characters as a string. -/
  asText (read : Option (List Char × List Char)) : Option (Item × List Char) :=
    read.map fun (cs, rest) => (.text (String.ofList cs), rest)

/-- The entries found so far. -/
structure Found where
  logLevel : Option String
  preferLatest : Option Bool

/-- Adds an entry, unless its key is unknown or taken or its value of the wrong type. -/
def Found.add? (f : Found) (key : String) (item : Item) : Option Found :=
  match item with
  | .text s =>
    if key = "log_level" ∧ f.logLevel.isNone then some { f with logLevel := some s } else none
  | .truth b =>
    if key = "prefer_latest" ∧ f.preferLatest.isNone then some { f with preferLatest := some b }
    else none

/-- One entry with the line it ends, and what follows. -/
def entry? (cs : List Char) : Option (String × Item × List Char) := do
  let (key, rest) ← key? (skipBlanks cs)
  match skipBlanks rest with
  | '=' :: rest => do
    let (item, rest) ← item? (skipBlanks rest)
    let rest ← lineEnd? rest
    pure (String.ofList key, item, rest)
  | _ => none

/-- Reads the remaining entries, in at most so many steps. -/
def entries? : Nat → List Char → Found → Option Found
  | 0, _, _ => none
  | steps + 1, cs, f =>
    if cs.isEmpty then some f
    else
      match lineEnd? cs with
      | some rest => entries? steps rest f
      | none => do
        let (key, item, rest) ← entry? cs
        entries? steps rest (← f.add? key item)

/-- The settings that a file sets. A byte order mark at its start does not count. Every step takes
at least one character, so one step for each character and one for the end suffice. -/
def ofText? (text : String) : Option Settings :=
  let cs :=
    match text.toList with
    | '\uFEFF' :: rest => rest
    | cs => cs
  (entries? (cs.length + 1) cs ⟨none, none⟩).map fun f =>
    ⟨f.logLevel.getD default.logLevel, f.preferLatest.getD default.preferLatest⟩

end Settings

end DecisionRules
