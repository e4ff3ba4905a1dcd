import DecisionRules.Json.Writer
import DecisionRules.Proofs.Json.Numeral
import DecisionRules.Proofs.Json.Quoting

/-!
# Proofs/Json/Spelling — the tokens that a written document has

Between the text of a document and the document stand its tokens, and `Json.spelling` lists them.
Scanning the compact text gives that list (`scan_compact`): a scalar is one token, a bracket, comma
or colon is one, and what follows a document never carries its last word on, since it is a mark or
the end of the text.

Only numbers can get in the way, by denoting nothing that a text can hold, or by being rounded to
another double than they were. A document without numbers of the first kind is `Json.Legible`; one
without numbers of the second kind, by the rounding of the layer that reads it, has
`Json.RoundsCorrectly`.
-/

namespace DecisionRules.Json

/-! ## The numbers and the tokens of a document -/

mutual

/-- Every number in the document can stand in a text. -/
def Legible : Json → Prop
  | .number n => n.Legible
  | .array items => LegibleItems items
  | .object entries => LegibleEntries entries
  | _ => True
  termination_by structural j => j

/-- Every item is legible. -/
def LegibleItems : List Json → Prop
  | [] => True
  | j :: rest => j.Legible ∧ LegibleItems rest
  termination_by structural items => items

/-- The value of every entry is legible. -/
def LegibleEntries : List (String × Json) → Prop
  | [] => True
  | (_, j) :: rest => j.Legible ∧ LegibleEntries rest
  termination_by structural entries => entries

end

mutual

/-- The numbers in a document, in the order in which they are written. -/
def numbers : Json → List Number
  | .number n => [n]
  | .array items => numbersOfItems items
  | .object entries => numbersOfEntries entries
  | _ => []
  termination_by structural j => j

/-- The numbers in the items. -/
def numbersOfItems : List Json → List Number
  | [] => []
  | j :: rest => j.numbers ++ numbersOfItems rest
  termination_by structural items => items

/-- The numbers in the values of the entries. -/
def numbersOfEntries : List (String × Json) → List Number
  | [] => []
  | (_, j) :: rest => j.numbers ++ numbersOfEntries rest
  termination_by structural entries => entries

end

/-- Every decimal that the document is written with is rounded to the nearest double. -/
def RoundsCorrectly [Rounding] (j : Json) : Prop := ∀ n ∈ j.numbers, n.RoundsCorrectly

/-- A layer that rounds every decimal there is correctly does so with those of any document. -/
theorem roundsCorrectly_of_forall [Rounding]
    (h : ∀ negative d, Rounding.round negative d = Decimal.nearest negative d) (j : Json) :
    j.RoundsCorrectly := by
  rintro (n | x) -
  · trivial
  · exact h _ _

theorem roundsCorrectly_toNearest (j : Json) :
    letI : Rounding := .toNearest
    j.RoundsCorrectly :=
  letI : Rounding := .toNearest
  roundsCorrectly_of_forall (fun _ _ => rfl) j

mutual

/-- The tokens that write a document. -/
def spelling : Json → List Token
  | .string s => [.text s]
  | .array [] => [.openArray, .closeArray]
  | .array (j :: rest) => .openArray :: (j.spelling ++ (spellingItems rest ++ [.closeArray]))
  | .object [] => [.openObject, .closeObject]
  | .object ((k, j) :: rest) =>
    .openObject :: .text k :: .colon :: (j.spelling ++ (spellingEntries rest ++ [.closeObject]))
  | j => [.scalar j]
  termination_by structural j => j

/-- The tokens of the items after the first one, each behind a comma. -/
def spellingItems : List Json → List Token
  | [] => []
  | j :: rest => .comma :: (j.spelling ++ spellingItems rest)
  termination_by structural items => items

/-- The tokens of the entries after the first one, each behind a comma. -/
def spellingEntries : List (String × Json) → List Token
  | [] => []
  | (k, j) :: rest => .comma :: .text k :: .colon :: (j.spelling ++ spellingEntries rest)
  termination_by structural entries => entries

end

/-! ## Scanning the text -/

theorem joinWith_cons (separator text : List Char) : ∀ rest : List (List Char),
    joinWith separator (text :: rest) = text ++ rest.flatMap (separator ++ ·)
  | [] => by simp [joinWith]
  | next :: rest => by
    rw [joinWith, joinWith_cons separator next rest, List.flatMap_cons, List.append_assoc,
      List.append_assoc]
    simp

namespace Token

/-- What follows does not carry a word on. -/
def EndsWord (cs : List Char) : Prop := ∀ c ∈ cs.head?, isDelimiter c = true

theorem scan_word [Rounding] {letters cs : List Char} (hcs : EndsWord cs) : ∀ before : List Char,
    letters.any isDelimiter = false →
    scan (.word before) (letters ++ cs) =
      ofWord (before.reverse ++ letters) ++ scan .between cs := by
  induction letters with
  | nil =>
    intro before _
    cases cs with
    | nil => simp [scan]
    | cons c cs => simp [scan, hcs c rfl]
  | cons c letters ih =>
    intro before hletters
    rw [List.any_cons, Bool.or_eq_false_iff] at hletters
    rw [List.cons_append, scan, hletters.1]
    simpa using ih (c :: before) hletters.2

/-- **A word is scanned as one**, up to what ends it. -/
theorem scan_between_word [Rounding] {c : Char} {letters cs : List Char} (hcs : EndsWord cs)
    (hletters : (c :: letters).any isDelimiter = false) :
    scan .between (c :: letters ++ cs) = ofWord (c :: letters) ++ scan .between cs := by
  rw [List.any_cons, Bool.or_eq_false_iff] at hletters
  obtain ⟨hc, hletters⟩ := hletters
  simp only [isDelimiter, Bool.or_eq_false_iff, beq_eq_false_iff_ne, Option.isSome_eq_false_iff,
    Option.isNone_iff_eq_none] at hc
  have hstart : start c = ([], .word [c]) := by simp [start, hc]
  rw [List.cons_append, scan, hstart]
  exact scan_word hcs [c] hletters

/-- A punctuation mark is a token by itself. -/
theorem scan_mark [Rounding] (c : Char) (t : Token) (hstart : start c = ([t], .between))
    (cs : List Char) : scan .between (c :: cs) = t :: scan .between cs := by
  rw [scan, hstart]
  rfl

/-- A digit is one of ten characters. -/
theorem digit_induction {p : Char → Prop} (h : ∀ n < 58, 48 ≤ n → p (Char.ofNat n)) {c : Char}
    (hc : Number.isDigit c = true) : p c := by
  have hrange : 48 ≤ c.toNat ∧ c.toNat ≤ 57 := by
    simpa [Number.isDigit, Char.le_def, UInt32.le_iff_toNat_le] using hc
  rw [← Char.ofNat_toNat c]
  exact h c.toNat (by omega) hrange.1

/-- No character of a numeral ends a word. -/
theorem any_isDelimiter_text {n : Number} (h : n.Legible) : n.text.any isDelimiter = false := by
  refine List.any_eq_false.mpr fun c hc => ?_
  rcases h.mem_text hc with hdigit | hmark
  · exact digit_induction (p := fun c => ¬ isDelimiter c = true) (by decide) hdigit
  · simp only [List.mem_cons, List.not_mem_nil, or_false] at hmark
    rcases hmark with rfl | rfl | rfl | rfl
    all_goals decide

/-- What starts with a digit or a minus sign is a number if it is a word at all. -/
theorem ofWord_of_literal? [Rounding] {letters : List Char} {l : Number.Literal}
    (hhead : ∃ c ∈ letters.head?, Number.isDigit c = true ∨ c = '-')
    (hliteral : Number.literal? letters = some (l, [])) : ofWord letters = [ofLiteral l] := by
  have hletter : ∀ c ∈ letters.head?, c ≠ 'n' ∧ c ≠ 't' ∧ c ≠ 'f' := by
    obtain ⟨c, hc, hcase⟩ := hhead
    rintro d hd
    obtain rfl : c = d := Option.some.inj (hc.symm.trans hd)
    rcases hcase with hdigit | rfl
    · exact digit_induction (p := fun c => c ≠ 'n' ∧ c ≠ 't' ∧ c ≠ 'f') (by decide) hdigit
    · decide
  unfold ofWord
  split
  case h_1 => exact absurd rfl (hletter 'n' rfl).1
  case h_2 => exact absurd rfl (hletter 't' rfl).2.1
  case h_3 => exact absurd rfl (hletter 'f' rfl).2.2
  case h_4 => simp [hliteral, leftover]

/-- **A number is scanned as that number.** -/
theorem scan_number [Rounding] {n : Number} (h : n.Legible) (hround : n.RoundsCorrectly)
    {cs : List Char} (hcs : EndsWord cs) :
    scan .between (n.text ++ cs) = .scalar (.number n) :: scan .between cs := by
  have hletters := any_isDelimiter_text h
  have hword : ofWord n.text = [.scalar (.number n)] := by
    rw [ofWord_of_literal? h.head_text (h.literal?_text), ofLiteral, h.number?_literal hround]
  obtain ⟨c, hc, -⟩ := h.head_text
  obtain ⟨letters, htext⟩ := List.head?_eq_some_iff.mp hc
  rw [htext] at hletters hword ⊢
  rw [scan_between_word hcs hletters, hword, List.singleton_append]

end Token

theorem endsWord_cons {c : Char} (hc : Token.isDelimiter c = true) (cs : List Char) :
    Token.EndsWord (c :: cs) := by
  rintro d ⟨⟩
  exact hc

/-- Texts behind commas end a word, and so does what ends a word without them. -/
theorem endsWord_flatMap (texts : List (List Char)) {cs : List Char} (hcs : Token.EndsWord cs) :
    Token.EndsWord (texts.flatMap ([','] ++ ·) ++ cs) := by
  cases texts with
  | nil => exact hcs
  | cons text rest => exact endsWord_cons (by decide) _

/-! The texts of an array, an object, and what stands in them, from the front. -/

theorem compact_array_append (j : Json) (rest : List Json) (cs : List Char) :
    (Json.array (j :: rest)).compact ++ cs =
      '[' :: (j.compact ++ ((compactItems rest).flatMap ([','] ++ ·) ++ ']' :: cs)) := by
  simp [compact, compactItems, joinWith_cons]

theorem compact_object_append (k : String) (j : Json) (rest : List (String × Json))
    (cs : List Char) :
    (Json.object ((k, j) :: rest)).compact ++ cs =
      '{' :: (stringText k ++ ':' ::
        (j.compact ++ ((compactEntries rest).flatMap ([','] ++ ·) ++ '}' :: cs))) := by
  simp [compact, compactEntries, joinWith_cons]

theorem flatMap_compactItems_append (j : Json) (rest : List Json) (cs : List Char) :
    (compactItems (j :: rest)).flatMap ([','] ++ ·) ++ cs =
      ',' :: (j.compact ++ ((compactItems rest).flatMap ([','] ++ ·) ++ cs)) := by
  simp [compactItems]

theorem flatMap_compactEntries_append (k : String) (j : Json) (rest : List (String × Json))
    (cs : List Char) :
    (compactEntries ((k, j) :: rest)).flatMap ([','] ++ ·) ++ cs =
      ',' :: (stringText k ++ ':' ::
        (j.compact ++ ((compactEntries rest).flatMap ([','] ++ ·) ++ cs))) := by
  simp [compactEntries]

mutual

/-- **The compact text of a document is scanned as its spelling.** -/
theorem scan_compact [Rounding] : ∀ {j : Json}, j.Legible → j.RoundsCorrectly →
    ∀ {cs : List Char}, Token.EndsWord cs →
    Token.scan .between (j.compact ++ cs) = j.spelling ++ Token.scan .between cs
  | .null, _, _, _, hcs => Token.scan_between_word hcs rfl
  | .bool true, _, _, _, hcs => Token.scan_between_word hcs rfl
  | .bool false, _, _, _, hcs => Token.scan_between_word hcs rfl
  | .number n, h, hround, _, hcs => Token.scan_number h (hround n (List.mem_singleton_self n)) hcs
  | .string s, _, _, cs, _ => Token.scan_quote s cs
  | .array [], _, _, _, _ => rfl
  | .array (j :: rest), h, hround, cs, _ => by
    have hclose : Token.EndsWord (']' :: cs) := endsWord_cons (by decide) cs
    obtain ⟨hfirst, hrest⟩ := List.forall_mem_append.mp hround
    rw [compact_array_append, Token.scan_mark '[' .openArray rfl,
      scan_compact h.1 hfirst (endsWord_flatMap _ hclose), scan_compactItems h.2 hrest hclose,
      Token.scan_mark ']' .closeArray rfl]
    simp [spelling]
  | .object [], _, _, _, _ => rfl
  | .object ((k, j) :: rest), h, hround, cs, _ => by
    have hclose : Token.EndsWord ('}' :: cs) := endsWord_cons (by decide) cs
    obtain ⟨hfirst, hrest⟩ := List.forall_mem_append.mp hround
    rw [compact_object_append, Token.scan_mark '{' .openObject rfl, stringText, Token.scan_quote,
      Token.scan_mark ':' .colon rfl, scan_compact h.1 hfirst (endsWord_flatMap _ hclose),
      scan_compactEntries h.2 hrest hclose, Token.scan_mark '}' .closeObject rfl]
    simp [spelling]
  termination_by structural j => j

/-- Items behind commas are scanned as their spellings behind commas. -/
theorem scan_compactItems [Rounding] : ∀ {items : List Json}, LegibleItems items →
    (∀ n ∈ numbersOfItems items, n.RoundsCorrectly) → ∀ {cs : List Char}, Token.EndsWord cs →
    Token.scan .between ((compactItems items).flatMap ([','] ++ ·) ++ cs) =
      spellingItems items ++ Token.scan .between cs
  | [], _, _, _, _ => rfl
  | j :: rest, h, hround, cs, hcs => by
    obtain ⟨hfirst, hrest⟩ := List.forall_mem_append.mp hround
    rw [flatMap_compactItems_append, Token.scan_mark ',' .comma rfl,
      scan_compact h.1 hfirst (endsWord_flatMap _ hcs), scan_compactItems h.2 hrest hcs]
    simp [spellingItems]
  termination_by structural items => items

/-- Entries behind commas are scanned as their spellings behind commas. -/
theorem scan_compactEntries [Rounding] : ∀ {entries : List (String × Json)},
    LegibleEntries entries → (∀ n ∈ numbersOfEntries entries, n.RoundsCorrectly) →
    ∀ {cs : List Char}, Token.EndsWord cs →
    Token.scan .between ((compactEntries entries).flatMap ([','] ++ ·) ++ cs) =
      spellingEntries entries ++ Token.scan .between cs
  | [], _, _, _, _ => rfl
  | (k, j) :: rest, h, hround, cs, hcs => by
    obtain ⟨hfirst, hrest⟩ := List.forall_mem_append.mp hround
    rw [flatMap_compactEntries_append, Token.scan_mark ',' .comma rfl, stringText, Token.scan_quote,
      Token.scan_mark ':' .colon rfl, scan_compact h.1 hfirst (endsWord_flatMap _ hcs),
      scan_compactEntries h.2 hrest hcs]
    simp [spellingEntries]
  termination_by structural entries => entries

end

/-- **The tokens of a written document are its spelling.** -/
theorem tokens_write [Rounding] {j : Json} (h : j.Legible) (hround : j.RoundsCorrectly) :
    tokens j.write.toList = j.spelling := by
  have hend : Token.EndsWord [] := by
    intro c hc
    simp at hc
  simpa [tokens, write, Token.scan] using scan_compact h hround hend

end DecisionRules.Json
