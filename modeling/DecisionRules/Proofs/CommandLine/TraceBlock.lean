import DecisionRules.CommandLine.Run
import DecisionRules.Proofs.Json.SingleLine
import DecisionRules.Proofs.Rule.Explanation
import DecisionRules.Proofs.Rule.TracePath
import DecisionRules.Proofs.Rule.TraceSearch
import DecisionRules.Proofs.Value.Encoders

/-!
# Proofs/CommandLine/TraceBlock — a trace is read back from the lines that show it

The trace of an evaluation is shown as a block of lines, one for each step, and each two spaces
further in than the step it stands below.  What a line shows of a step is its path, its operator and
the text of its result (`Outline`).

`readBlock` reads a block.  Line breaks are nowhere but between lines, since texts of values have
none (`Value.noControl_text`); and paths and names of operators are words, so a line falls apart at
its blanks in one way.  A forest is then put together from behind (`gather`): a line takes all trees
behind it that stand further in, up to the first that does not.
-/

namespace DecisionRules

open TraceStep

/-! ## Words -/

/-- A text without blanks and control characters. -/
abbrev IsWord (cs : List Char) : Prop := CodesFrom 0x21 cs

theorem CodesFrom.noControl {cs : List Char} (h : IsWord cs) : NoControl cs := h.mono (by decide)

theorem CodesFrom.blank_not_mem {cs : List Char} (h : IsWord cs) : ' ' ∉ cs := h.not_mem (by decide)

theorem isWord_positionText (i : Nat) : IsWord (positionText i).toList := by
  have hdigits : IsWord (Number.natText i) := fun c hc =>
    Json.Token.digit_induction (p := fun c => 0x21 ≤ c.toNat) (by decide)
      (Number.isDigit_of_mem_natText hc)
  have htext : (positionText i).toList = ['['] ++ Number.natText i ++ [']'] := by
    simp [positionText]
  rw [htext]
  exact .append (.append (.of_all rfl) hdigits) (.of_all rfl)

theorem isWord_roleText (role : Role) : IsWord role.text.toList := by
  have hlabel : IsWord role.label.toList := by
    refine .of_all ?_
    cases role <;> simp only [Role.label] <;> decide
  rw [Role.text_eq, String.toList_append]
  refine .append hlabel ?_
  cases role.position? with
  | none => exact .of_all rfl
  | some i => exact isWord_positionText i

/-- **The text of a route** is a word. -/
theorem isWord_routeText (route : Route) : IsWord route.text.toList := by
  induction route with
  | nil => exact .of_all rfl
  | cons m rest ih =>
    rw [Route.text, String.toList_append]
    refine .append ?_ ih
    cases m with
    | item i => exact isWord_positionText i
    | part role =>
      rw [Move.text, String.toList_append]
      exact .append (.of_all rfl) (isWord_roleText role)

theorem isWord_operatorName (operator : Operator) : IsWord operator.name.toList := by
  cases operator with
  | compare c => cases c <;> exact .of_all rfl
  | extremum e => cases e <;> exact .of_all rfl
  | quantify q => cases q <;> exact .of_all rfl
  | _ => exact .of_all rfl

/-- **The text of a value** stands on one line. -/
theorem Value.noControl_text (v : Value) : NoControl v.text.toList := by
  rw [Value.text, Json.write, String.toList_ofList]
  exact Json.noControl_compact v.legible_document_of_any

/-! ## Steps of an evaluation -/

/-- The line of a step falls apart into what it shows. -/
structure TraceStep.IsReadable (s : TraceStep) : Prop where
  path_ne_empty : s.path ≠ ""
  path : IsWord s.path.toList
  operator : IsWord s.operator.toList

/-- **Every step of an evaluation is readable**: its path starts with the root and goes on along a
route, and its operator is one of those there are. -/
theorem isReadable_of_evaluate {e c : Value} {outcome : Evaluation}
    (h : evaluate e c = .ok outcome) : ∀ s ∈ listAll outcome.trace, s.IsReadable := by
  have hrun := evaluate_ok_iff.mp h
  have hoperator : ∀ s ∈ listAll outcome.trace, IsWord s.operator.toList :=
    Value.forall_step_of_run (fun operator _ _ _ _ _ => isWord_operatorName operator) e _ _ _ hrun
  intro s hs
  obtain ⟨route, hpath, -⟩ := (e.charted_run _ _ _ hrun).located s hs
  have hroot : rootPath.toList = ['$'] := rfl
  have htext : s.path.toList = ['$'] ++ route.text.toList := by
    rw [hpath, String.toList_append, hroot]
  refine ⟨fun hempty => ?_, ?_, hoperator s hs⟩
  · rw [hempty] at htext
    cases htext
  · rw [htext]
    exact .append (.of_all rfl) (isWord_routeText route)

namespace CommandLine

/-! ## What is shown -/

/-- What the lines of a step and of the steps below it show. -/
structure Outline where
  path : String
  operator : String
  result : String
  inner : List Outline

mutual

/-- What is shown of a step: of its result just the text, and nothing of what that was computed
from. -/
def outline : TraceStep → Outline
  | ⟨path, operator, result, _, children⟩ => ⟨path, operator, result.text, outlines children⟩
  termination_by structural s => s

/-- What is shown of a forest. -/
def outlines : List TraceStep → List Outline
  | [] => []
  | s :: rest => outline s :: outlines rest
  termination_by structural forest => forest

end

theorem outlines_cons (s : TraceStep) (rest : List TraceStep) :
    outlines (s :: rest) =
      ⟨s.path, s.operator, s.result.text, outlines s.children⟩ :: outlines rest := by
  rcases s with ⟨path, operator, result, arguments, children⟩
  rfl

/-- The line of a step. -/
def lineText (depth : Nat) (s : TraceStep) : String :=
  String.ofList (List.replicate (2 * depth) ' ') ++ s.path ++ " " ++ s.operator ++ " -> " ++
    s.result.text

theorem traceLines_cons (depth : Nat) (s : TraceStep) (rest : List TraceStep) :
    traceLines depth (s :: rest) =
      lineText depth s :: (traceLines (depth + 1) s.children ++ traceLines depth rest) := by
  rcases s with ⟨path, operator, result, arguments, children⟩
  rfl

/-- The block of lines that shows a trace. -/
def traceBlock (trace : List TraceStep) : String := unlines (traceLines 1 trace)

theorem unlines_append (lines more : List String) :
    unlines (lines ++ more) = unlines lines ++ unlines more := by
  rw [unlines, List.map_append, String.join_append, unlines, unlines]

theorem toList_unlines_cons (line : String) (rest : List String) :
    (unlines (line :: rest)).toList = line.toList ++ '\n' :: (unlines rest).toList := by
  simp [unlines]

/-- **What is shown of an evaluation ends with the block**, unless there is nothing to show in
it. -/
theorem responseText_text {i : Invocation} (htext : i.output = .text) (r : EvaluationResponse) :
    i.responseText r = unlines ["Result: " ++ r.result.text, "Proof: " ++ r.proof.id] ++
      if r.trace.isEmpty then "" else unlines ["Trace:"] ++ traceBlock r.trace := by
  rw [Invocation.responseText, htext]
  change unlines (_ ++ if r.trace.isEmpty then [] else ["Trace:"] ++ traceLines 1 r.trace) = _
  rw [unlines_append, apply_ite unlines, unlines_append]
  rfl

/-- **There is a line for every step.** -/
theorem length_traceLines (forest : List TraceStep) :
    ∀ depth, (traceLines depth forest).length = countAll forest := by
  induction forest using forestInduction with
  | nil => exact fun _ => rfl
  | cons s rest ihchildren ihrest =>
    intro depth
    rw [traceLines_cons, List.length_cons, List.length_append, ihchildren, ihrest, countAll_cons]
    omega

/-- Nothing else of a forest is in its lines. -/
theorem traceLines_congr (forest : List TraceStep) : ∀ {other : List TraceStep} (depth : Nat),
    outlines forest = outlines other → traceLines depth forest = traceLines depth other := by
  induction forest using forestInduction with
  | nil =>
    intro other depth h
    cases other with
    | nil => rfl
    | cons t others => cases h
  | cons s rest ihchildren ihrest =>
    intro other depth h
    cases other with
    | nil => cases h
    | cons t others =>
      rw [outlines_cons, outlines_cons, List.cons.injEq, Outline.mk.injEq] at h
      obtain ⟨⟨hpath, hoperator, hresult, hbelow⟩, hrest⟩ := h
      rw [traceLines_cons, traceLines_cons, ihchildren _ hbelow, ihrest _ hrest, lineText, lineText,
        hpath, hoperator, hresult]

/-! ## Reading -/

/-- What a line shows, and how far in. -/
structure Line where
  depth : Nat
  path : String
  operator : String
  result : String

/-- Reads a line, which falls apart at its blanks. An arrow between two of them stands before the
result. -/
def Line.ofText (cs : List Char) : Line :=
  let (indent, cs) := cs.span (· == ' ')
  let (path, cs) := cs.span (· != ' ')
  let (operator, cs) := cs.tail.span (· != ' ')
  ⟨indent.length / 2, String.ofList path, String.ofList operator,
    String.ofList (cs.drop 4)⟩

/-- The trees that lines show, each with the depth of its root.  A line takes the trees behind it
that stand further in. -/
def gather : List Line → List (Nat × Outline)
  | [] => []
  | l :: rest =>
    let (below, behind) := (gather rest).span fun tree => decide (l.depth < tree.1)
    (l.depth, ⟨l.path, l.operator, l.result, below.map (·.2)⟩) :: behind

/-- What a block of lines shows. -/
def readBlock (block : String) : List Outline :=
  (gather ((block.toList.splitOn '\n').dropLast.map Line.ofText)).map (·.2)

/-- A span ends where it is said to end. -/
theorem span_append {α : Type} {p : α → Bool} {xs ys : List α} (hxs : ∀ x ∈ xs, p x = true)
    (hys : ∀ y ∈ ys.head?, p y = false) : (xs ++ ys).span p = (xs, ys) := by
  rw [List.span_eq_takeWhile_dropWhile, List.takeWhile_append_of_pos hxs,
    List.dropWhile_append_of_pos hxs]
  cases ys with
  | nil => simp
  | cons y ys => simp [hys y rfl]

/-- A word ends at the blank behind it. -/
theorem span_word {cs : List Char} (h : IsWord cs) (rest : List Char) :
    (cs ++ ' ' :: rest).span (· != ' ') = (cs, ' ' :: rest) := by
  have hword : ∀ c ∈ cs, (c != ' ') = true := fun c hc =>
    bne_iff_ne.mpr (ne_of_mem_of_not_mem hc h.blank_not_mem)
  refine span_append hword fun c hc => ?_
  obtain rfl : ' ' = c := Option.some.inj hc
  rfl

/-- The indentation of a line ends where its path starts. -/
theorem span_indent {s : TraceStep} (hs : s.IsReadable) (depth : Nat) (rest : List Char) :
    (List.replicate (2 * depth) ' ' ++ (s.path.toList ++ rest)).span (· == ' ') =
      (List.replicate (2 * depth) ' ', s.path.toList ++ rest) := by
  refine span_append (fun c hc => beq_iff_eq.mpr (List.eq_of_mem_replicate hc)) fun c hc => ?_
  obtain ⟨d, ds, hpath⟩ :=
    List.exists_cons_of_ne_nil (mt String.toList_eq_nil_iff.mp hs.path_ne_empty)
  rw [hpath] at hc
  obtain rfl : d = c := Option.some.inj hc
  exact beq_false_of_ne
    (ne_of_mem_of_not_mem (hpath ▸ List.mem_cons_self) hs.path.blank_not_mem)

/-- **A line is read back.** -/
theorem Line.ofText_lineText {s : TraceStep} (hs : s.IsReadable) (depth : Nat) :
    Line.ofText (lineText depth s).toList = ⟨depth, s.path, s.operator, s.result.text⟩ := by
  have htext : (lineText depth s).toList = List.replicate (2 * depth) ' ' ++
      (s.path.toList ++ ' ' :: (s.operator.toList ++
        ' ' :: ('-' :: '>' :: ' ' :: s.result.text.toList))) := by
    simp [lineText]
  rw [htext, Line.ofText, span_indent hs]
  simp only [span_word hs.path, List.tail_cons, span_word hs.operator, List.length_replicate]
  simp

/-- **The trees of a forest are put together again**, whatever comes behind it, if that does not
stand further in. -/
theorem gather_append {forest : List TraceStep} : (∀ s ∈ listAll forest, s.IsReadable) →
    ∀ (depth : Nat) (lines : List Line), (∀ tree ∈ (gather lines).head?, tree.1 ≤ depth) →
      gather ((traceLines depth forest).map (fun line => Line.ofText line.toList) ++ lines) =
        (outlines forest).map (depth, ·) ++ gather lines := by
  induction forest using forestInduction with
  | nil => exact fun _ _ _ _ => rfl
  | cons s rest ihchildren ihrest =>
    intro hreadable depth lines hlines
    rw [listAll_cons, List.forall_mem_cons, List.forall_mem_append] at hreadable
    obtain ⟨hs, hchildren, hrest⟩ := hreadable
    have hbehind := ihrest hrest depth lines hlines
    -- what comes behind the children: the rest of the forest, and only then the other lines
    have hhead : ∀ tree ∈ ((outlines rest).map (depth, ·) ++ gather lines).head?,
        tree.1 ≤ depth := by
      cases outlines rest with
      | nil => exact hlines
      | cons o others =>
        rintro tree htree
        obtain rfl : (depth, o) = tree := Option.some.inj htree
        exact Nat.le_refl depth
    have hbelow := ihchildren hchildren (depth + 1) _
      (hbehind ▸ fun tree htree => (hhead tree htree).trans (Nat.le_succ depth))
    rw [traceLines_cons, List.map_cons, List.map_append, List.cons_append, List.append_assoc,
      Line.ofText_lineText hs, gather, hbelow, hbehind, span_append, outlines_cons]
    · simp
    · simp
    · exact fun tree htree => decide_eq_false (Nat.not_lt.mpr (hhead tree htree))

/-- A line has no line break in it. -/
theorem noControl_lineText {s : TraceStep} (hs : s.IsReadable) (depth : Nat) :
    NoControl (lineText depth s).toList := by
  have hindent : NoControl (List.replicate (2 * depth) ' ') := fun c hc => by
    rw [List.eq_of_mem_replicate hc]
    decide
  simp only [lineText, String.toList_append, String.toList_ofList]
  exact .append (.append (.append (.append (.append hindent hs.path.noControl) (.of_all rfl))
    hs.operator.noControl) (.of_all rfl)) s.result.noControl_text

theorem noControl_traceLines {forest : List TraceStep} : (∀ s ∈ listAll forest, s.IsReadable) →
    ∀ depth, ∀ line ∈ traceLines depth forest, NoControl line.toList := by
  induction forest using forestInduction with
  | nil => exact fun _ _ => List.forall_mem_nil _
  | cons s rest ihchildren ihrest =>
    intro hreadable depth
    rw [listAll_cons, List.forall_mem_cons, List.forall_mem_append] at hreadable
    obtain ⟨hs, hchildren, hrest⟩ := hreadable
    rw [traceLines_cons, List.forall_mem_cons, List.forall_mem_append]
    exact ⟨noControl_lineText hs depth, ihchildren hchildren _, ihrest hrest _⟩

/-- **Lines without line breaks in them** are found between the line breaks of their block. -/
theorem splitOn_unlines {lines : List String} (h : ∀ line ∈ lines, '\n' ∉ line.toList) :
    (unlines lines).toList.splitOn '\n' = lines.map String.toList ++ [[]] := by
  induction lines with
  | nil => rfl
  | cons line rest ih =>
    obtain ⟨hline, hrest⟩ := List.forall_mem_cons.mp h
    rw [toList_unlines_cons, List.splitOn_append_cons_self, List.splitOn_eq_singleton hline,
      ih hrest]
    rfl

theorem count_unlines {lines : List String} (h : ∀ line ∈ lines, '\n' ∉ line.toList) :
    (unlines lines).toList.count '\n' = lines.length := by
  induction lines with
  | nil => rfl
  | cons line rest ih =>
    obtain ⟨hline, hrest⟩ := List.forall_mem_cons.mp h
    rw [toList_unlines_cons, List.count_append, List.count_eq_zero.mpr hline,
      List.count_cons_self, ih hrest, List.length_cons, Nat.zero_add]

section Block

variable {forest : List TraceStep} (hreadable : ∀ s ∈ listAll forest, s.IsReadable)
include hreadable

theorem not_mem_newline_traceLines (depth : Nat) :
    ∀ line ∈ traceLines depth forest, '\n' ∉ line.toList :=
  fun line hline => (noControl_traceLines hreadable depth line hline).not_mem (by decide)

/-- **A block has a line for every step.** -/
theorem count_traceBlock : (traceBlock forest).toList.count '\n' = countAll forest := by
  rw [traceBlock, count_unlines (not_mem_newline_traceLines hreadable 1), length_traceLines]

/-- **What a block shows is read back from it.** -/
theorem readBlock_traceBlock : readBlock (traceBlock forest) = outlines forest := by
  have hgather := gather_append hreadable 1 [] (fun _ h => by cases h)
  rw [List.append_nil] at hgather
  rw [readBlock, traceBlock, splitOn_unlines (not_mem_newline_traceLines hreadable 1),
    List.dropLast_concat, List.map_map, Function.comp_def, hgather]
  simp [gather]

end Block

/-- **The print-out of a trace is faithful.**  The block of lines that shows the trace of an
evaluation has a line for every step, nested ones included, and what it shows of the trace, shape,
paths, operators and texts of results, is read back from it.  So two evaluations have the same block
just if these are the same. -/
theorem traceBlock_faithful_of_evaluate (e c : Value) (outcome : Evaluation)
    (h : evaluate e c = .ok outcome) :
    (traceBlock outcome.trace).toList.count '\n' = countAll outcome.trace ∧
      readBlock (traceBlock outcome.trace) = outlines outcome.trace ∧
        ∀ e' c' outcome', evaluate e' c' = .ok outcome' →
          (traceBlock outcome.trace = traceBlock outcome'.trace ↔
            outlines outcome.trace = outlines outcome'.trace) := by
  have hreadable := isReadable_of_evaluate h
  have hread := readBlock_traceBlock hreadable
  refine ⟨count_traceBlock hreadable, hread, fun e' c' outcome' h' => ⟨fun hblock => ?_, ?_⟩⟩
  · rw [← hread, hblock, readBlock_traceBlock (isReadable_of_evaluate h')]
  · exact fun hsame => congrArg unlines (traceLines_congr outcome.trace 1 hsame)

/-- Two expressions that are told apart by the keys they look for, and not by what they print.  One
result has a line break in it, another one what stands between the texts of a line. -/
theorem traceBlock_faithful_of_evaluate_lookalikes :
    let rule : List Value → Value := fun keys => .object [("if", .array [
      .object [("!", .array [.object [("missing", .array keys)]])], .null,
      .object [("missing", .array [.string " ! -> "])]])]
    let block := "  $ if -> [\" ! -> \"]\n    $.condition[0] ! -> false\n" ++
      "      $.condition[0].args[0] missing -> [\"a\\nb\"]\n" ++
        "    $.default missing -> [\" ! -> \"]\n"
    ∃ outcome outcome', evaluate (rule [.string "a\nb"]) .null = .ok outcome ∧
      evaluate (rule [.string "a\nb", .string "k"]) (.object [("k", .bool true)]) = .ok outcome' ∧
        traceBlock outcome.trace = block ∧ traceBlock outcome'.trace = block ∧
          block.toList.count '\n' = 4 ∧ readBlock block = outlines outcome.trace ∧
            outlines outcome.trace = outlines outcome'.trace := by
  intro rule block
  obtain ⟨outcome, h, hblock, hcount⟩ : ∃ outcome,
      evaluate (rule [.string "a\nb"]) .null = .ok outcome ∧
        traceBlock outcome.trace = block ∧ countAll outcome.trace = 4 :=
    ⟨_, rfl, by decide +kernel, rfl⟩
  obtain ⟨outcome', h', hblock'⟩ : ∃ outcome',
      evaluate (rule [.string "a\nb", .string "k"]) (.object [("k", .bool true)]) = .ok outcome' ∧
        traceBlock outcome'.trace = block :=
    ⟨_, rfl, by decide +kernel⟩
  obtain ⟨hlines, hread, hsame⟩ := traceBlock_faithful_of_evaluate _ _ outcome h
  rw [hblock] at hlines hread
  exact ⟨outcome, outcome', h, h', hblock, hblock', hlines.trans hcount, hread,
    (hsame _ _ outcome' h').mp (hblock.trans hblock'.symm)⟩

end CommandLine

end DecisionRules
