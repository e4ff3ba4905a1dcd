import DecisionRules.Number.Integer
import DecisionRules.Rule.Evaluate

/-!
# Proofs/Rule/Route — the path of a step, read as a way into the expression

A path is `$` followed by the texts of moves: an item of an array by its position, an argument of an
operator node by its role.  `Value.follow?` takes such moves one after another, and
`Route.ofText?` reads them off a path again.  No two routes have the same text
(`Route.text_injective`): points and opening brackets stand nowhere but where a move starts or a
position does, so a path falls apart at them in one way only.
-/

namespace DecisionRules

/-- From an expression to one of its sub-expressions. -/
inductive Move
  /-- To an item of an array. -/
  | item (i : Nat)
  /-- To an argument of an operator node. -/
  | part (role : Role)
  deriving DecidableEq

/-- Moves one after another, from the outside in. -/
abbrev Route := List Move

/-! ## Where a move leads

Roles are read off the raw arguments.  Which of them a role means is up to the operator: only
`default` means different ones in different nodes, and only `!` has an argument that is not in a
list. -/

/-- The argument with a role, among the arguments of an operator. -/
def Operator.pick? : Operator → List Value → Role → Option Value
  | _, arguments, .argument i => arguments[i]?
  | .ifElse, arguments, .condition k => arguments[2 * k]?
  | .ifElse, arguments, .result k => arguments[2 * k + 1]?
  | .ifElse, arguments, .fallback =>
    if arguments.length % 2 = 1 then arguments.getLast? else none
  | .var, arguments, .fallback => arguments[1]?
  | .membership, arguments, .needle => arguments[0]?
  | .membership, arguments, .haystack => arguments[1]?
  | .missingSome, arguments, .threshold => arguments[0]?
  | .quantify _, arguments, .sequence => arguments[0]?
  | .quantify _, arguments, .predicate _ => arguments[1]?
  | _, _, _ => none

@[simp] theorem Operator.pick?_argument (operator : Operator) (arguments : List Value) (i : Nat) :
    operator.pick? arguments (.argument i) = arguments[i]? := by
  rw [Operator.pick?]

/-- The sub-expression with a role in a node, given what stands under its key. -/
def Operator.part? (operator : Operator) (argument : Value) (role : Role) : Option Value :=
  match argument with
  | .array arguments => operator.pick? arguments role
  | bare => if operator = .not ∧ role = .argument 0 then some bare else none

namespace Value

/-- The sub-expression that a move leads to. -/
def sub? : Value → Move → Option Value
  | .array items, .item i => items[i]?
  | .object [(name, argument)], .part role =>
    (Operator.ofName? name).bind fun operator => operator.part? argument role
  | _, _ => none

/-- The sub-expression that a route leads to. -/
def follow? : Value → Route → Option Value
  | e, [] => some e
  | e, m :: rest => (e.sub? m).bind fun inner => inner.follow? rest

end Value

/-! ## The text of a route -/

/-- The word that a role starts with. -/
def Role.label : Role → String
  | .argument _ => "args"
  | .condition _ => "condition"
  | .result _ => "result"
  | .fallback => "default"
  | .needle => "needle"
  | .haystack => "haystack"
  | .threshold => "min"
  | .sequence => "sequence"
  | .predicate _ => "predicate"

/-- The position that a role goes on with, if it has one. -/
def Role.position? : Role → Option Nat
  | .argument i | .condition i | .result i | .predicate i => some i
  | _ => none

theorem Role.text_eq (role : Role) :
    role.text = role.label ++ (role.position?.map positionText).getD "" := by
  cases role <;> simp [Role.text, Role.label, Role.position?]

/-- A move as it stands in a path. -/
def Move.text : Move → String
  | .item i => positionText i
  | .part role => "." ++ role.text

/-- The moves of a route as they stand in a path. -/
def Route.text : Route → String
  | [] => ""
  | m :: rest => m.text ++ Route.text rest

/-- The place that a move leads to. -/
def Place.move (p : Place) : Move → Place
  | .item i => p.item i
  | .part role => p.child role

/-- **A move adds its text to the path.** -/
theorem Place.path_move (p : Place) (m : Move) : (p.move m).path = p.path ++ m.text := by
  cases m with
  | item i => rfl
  | part role => exact String.append_assoc

/-! ## Reading a path -/

/-- Cuts a text before every point and every opening bracket: what stands before the first of them,
and then each of them with what follows it up to the next. -/
def cutAtMarks : List Char → List Char × List (Char × List Char)
  | [] => ([], [])
  | c :: cs =>
    let (first, rest) := cutAtMarks cs
    if c = '.' ∨ c = '[' then ([], (c, first) :: rest) else (c :: first, rest)

/-- What a path is made of: words after a point, and positions in brackets. -/
inductive Sign
  | word (s : String)
  | position (i : Nat)

/-- What a piece of a path says. -/
def Sign.ofPiece? : Char × List Char → Option Sign
  | (mark, text) =>
    if mark = '.' then some (.word (String.ofList text))
    else if text.getLast? = some ']' then (Integer.digits? text.dropLast).map .position
    else none

/-- The role that a word alone names. -/
def Role.ofWord? : String → Option Role
  | "default" => some .fallback
  | "needle" => some .needle
  | "haystack" => some .haystack
  | "min" => some .threshold
  | "sequence" => some .sequence
  | _ => none

/-- The roles that a word names together with a position. -/
def Role.ofWordAt? : String → Option (Nat → Role)
  | "args" => some .argument
  | "condition" => some .condition
  | "result" => some .result
  | "predicate" => some .predicate
  | _ => none

/-- The moves that signs say. -/
def Route.ofSigns? : List Sign → Option Route
  | [] => some []
  | .position i :: rest => (Route.ofSigns? rest).map (.item i :: ·)
  | .word s :: rest =>
    match Role.ofWord? s, Role.ofWordAt? s, rest with
    | some role, _, rest => (Route.ofSigns? rest).map (.part role :: ·)
    | none, some role, .position i :: rest => (Route.ofSigns? rest).map (.part (role i) :: ·)
    | none, _, _ => none

/-- The route that a path describes. -/
def Route.ofText? (path : String) : Option Route :=
  let (root, pieces) := cutAtMarks path.toList
  if String.ofList root = rootPath then (pieces.mapM Sign.ofPiece?).bind Route.ofSigns? else none

/-- The sub-expression at a path. -/
def Value.locate? (e : Value) (path : String) : Option Value :=
  (Route.ofText? path).bind e.follow?

/-! ## What is read is what was written

A text that starts with a mark says a sign, and then what the rest says, if the rest starts with a
mark too.  So a route is read back move by move. -/

/-- The signs of a role. -/
def Role.signs (role : Role) : List Sign :=
  .word role.label :: (role.position?.map Sign.position).toList

/-- The signs of a move. -/
def Move.signs : Move → List Sign
  | .item i => [.position i]
  | .part role => role.signs

/-- A character that starts no piece of a path. -/
def IsPlain (c : Char) : Prop := ¬ (c = '.' ∨ c = '[')

instance : DecidablePred IsPlain := fun c => inferInstanceAs (Decidable (¬ (c = '.' ∨ c = '[')))

/-- A text falls into pieces, with nothing before the first, that say these signs. -/
def Says (cs : List Char) (signs : List Sign) : Prop :=
  ∃ pieces, cutAtMarks cs = ([], pieces) ∧ pieces.mapM Sign.ofPiece? = some signs

theorem cutAtMarks_append {plain : List Char} (h : ∀ c ∈ plain, IsPlain c) (cs : List Char) :
    cutAtMarks (plain ++ cs) = (plain ++ (cutAtMarks cs).1, (cutAtMarks cs).2) := by
  induction plain with
  | nil => rfl
  | cons c plain ih =>
    have hc : ¬ (c = '.' ∨ c = '[') := h c List.mem_cons_self
    rw [List.cons_append, cutAtMarks, ih fun d hd => h d (List.mem_cons_of_mem _ hd)]
    simp only [hc, if_false, List.cons_append]

/-- **A piece ends where the next one starts.** -/
theorem Says.piece {mark : Char} (hmark : mark = '.' ∨ mark = '[') {plain : List Char}
    (h : ∀ c ∈ plain, IsPlain c) {sign : Sign} (hsign : Sign.ofPiece? (mark, plain) = some sign)
    {cs : List Char} {rest : List Sign} (hrest : Says cs rest) :
    Says (mark :: (plain ++ cs)) (sign :: rest) := by
  obtain ⟨pieces, hcut, hread⟩ := hrest
  refine ⟨(mark, plain) :: pieces, ?_, ?_⟩
  · rw [cutAtMarks, cutAtMarks_append h, hcut]
    simp only [hmark, if_true, List.append_nil]
  · rw [List.mapM_cons, hsign, hread]
    rfl

/-- A digit starts no piece. -/
theorem isPlain_of_isDigit {c : Char} (h : Number.isDigit c = true) : IsPlain c := by
  rintro (rfl | rfl) <;> exact absurd h (by decide)

/-- A position says itself. -/
theorem Says.position (i : Nat) {cs : List Char} {rest : List Sign} (h : Says cs rest) :
    Says ((positionText i).toList ++ cs) (.position i :: rest) := by
  have htext : (positionText i).toList ++ cs = '[' :: ((Number.natText i ++ [']']) ++ cs) := by
    simp [positionText]
  rw [htext]
  refine Says.piece (.inr rfl) (fun c hc => ?_) ?_ h
  · rcases List.mem_append.mp hc with hc | hc
    · exact isPlain_of_isDigit (Number.isDigit_of_mem_natText hc)
    · rw [List.mem_singleton.mp hc]
      decide
  · simp [Sign.ofPiece?]

/-- A word after a point says itself, if nothing in it starts a piece. -/
theorem Says.word {word : String} (hplain : ∀ c ∈ word.toList, IsPlain c) {cs : List Char}
    {rest : List Sign} (h : Says cs rest) : Says (("." ++ word).toList ++ cs) (.word word :: rest) := by
  have hsign : Sign.ofPiece? ('.', word.toList) = some (.word word) := by
    simp [Sign.ofPiece?]
  simpa using Says.piece (.inl rfl) hplain hsign h

/-- No word of a role starts a piece. -/
theorem isPlain_of_mem_label {role : Role} {c : Char} (h : c ∈ role.label.toList) : IsPlain c := by
  have hall : role.label.toList.all (fun c => decide (IsPlain c)) = true := by
    cases role <;> simp only [Role.label] <;> decide
  exact of_decide_eq_true (List.all_eq_true.mp hall c h)

/-- **A move says its signs.** -/
theorem Says.move (m : Move) {cs : List Char} {rest : List Sign} (h : Says cs rest) :
    Says (m.text.toList ++ cs) (m.signs ++ rest) := by
  cases m with
  | item i => exact h.position i
  | part role =>
    rw [Move.text, Role.text_eq, Move.signs, Role.signs]
    cases role.position? with
    | none => simpa using Says.word (fun _ => isPlain_of_mem_label) h
    | some i => simpa using Says.word (fun _ => isPlain_of_mem_label) (h.position i)

/-- A route says the signs of its moves. -/
theorem Route.says_text (route : Route) : Says route.text.toList (route.flatMap Move.signs) := by
  induction route with
  | nil => exact ⟨[], rfl, rfl⟩
  | cons m rest ih =>
    rw [Route.text, String.toList_append, List.flatMap_cons]
    exact ih.move m

/-- **Signs give back the moves that have them.** -/
theorem Route.ofSigns?_signs (route : Route) :
    Route.ofSigns? (route.flatMap Move.signs) = some route := by
  induction route with
  | nil => rfl
  | cons m rest ih =>
    rw [List.flatMap_cons]
    cases m with
    | item i => simp [Move.signs, Route.ofSigns?, ih]
    | part role =>
      cases role <;>
        simp [Move.signs, Role.signs, Role.label, Role.position?, Route.ofSigns?, Role.ofWord?,
          Role.ofWordAt?, ih]

/-- What stands before the first mark of a path is the root. -/
theorem cutAtMarks_root {text : String} {pieces : List (Char × List Char)}
    (h : cutAtMarks text.toList = ([], pieces)) :
    cutAtMarks (rootPath ++ text).toList = (['$'], pieces) := by
  have hplain : ∀ c ∈ rootPath.toList, IsPlain c := by
    intro c hc
    obtain rfl : c = '$' := List.mem_singleton.mp hc
    rintro (h | h) <;> exact absurd h (by decide)
  rw [String.toList_append, cutAtMarks_append hplain, h]
  rfl

/-- **A route is read back from its path.** -/
theorem Route.ofText?_text (route : Route) :
    Route.ofText? (rootPath ++ route.text) = some route := by
  obtain ⟨pieces, hcut, hread⟩ := route.says_text
  have hname : String.ofList ['$'] = rootPath := rfl
  rw [Route.ofText?, cutAtMarks_root hcut]
  simp only [hname, if_true, hread]
  exact Route.ofSigns?_signs route

/-- **No two routes have the same text.** -/
theorem Route.text_injective {ρ σ : Route} (h : ρ.text = σ.text) : ρ = σ := by
  have hread := Route.ofText?_text ρ
  rw [h, Route.ofText?_text σ] at hread
  exact (Option.some.inj hread).symm

end DecisionRules
