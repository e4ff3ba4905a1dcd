import DecisionRules.Proofs.Record.Field
import DecisionRules.Proofs.Rule.WellFormed
import DecisionRules.Record.Equality

/-!
# Proofs/Record/Trace — a trace is read back from its text

A step is written without its reason if it has none, and a reason of `null` would be read as none.
So it is only for a trace whose reasons are not `null` that the document of the trace conveys it,
every value in it read back (`conveys_trace`).  The trace that comes back is equal to the
one that was written (`beq_rereadAll`).

Both go along the trace, a step with its children and a forest step by step.
-/

namespace DecisionRules

/-- The document of a finite value is `null` only if the value is. -/
theorem Value.document_ne_null {v : Value} (h : v.IsFinite) (hne : v ≠ .null) :
    v.document ≠ .null := by
  cases v with
  | null => exact absurd rfl hne
  | number x =>
    obtain ⟨n, hwritten, -⟩ := numberDocument_eq h
    rw [document, hwritten]
    nofun
  | _ => nofun

namespace TraceStep

/-- The numbers in the result and in the reason of a step are finite. -/
structure IsFinite (s : TraceStep) : Prop where
  result : s.result.IsFinite
  arguments : ∀ v ∈ s.arguments, v.IsFinite

/-! ## Reading -/

mutual

/-- The step that comes back. -/
def reread : TraceStep → TraceStep
  | ⟨path, operator, result, arguments, children⟩ =>
    ⟨path, operator, result.reread, arguments.map Value.reread, rereadAll children⟩
  termination_by structural s => s

/-- The forest that comes back. -/
def rereadAll : List TraceStep → List TraceStep
  | [] => []
  | s :: rest => s.reread :: rereadAll rest
  termination_by structural forest => forest

end

/-- A step that has a reason is written with it, and one that has none is written without. -/
theorem written {path operator : String} {result : Value} {arguments : Option Value}
    {children : List TraceStep} {read : Json → Option (List TraceStep)} {a : List TraceStep}
    (hfinite : IsFinite ⟨path, operator, result, arguments, children⟩)
    (hne : arguments ≠ some .null)
    (hchildren : Conveys (.list (.record .traceStep)) read (.array (toJsonAll children)) a) :
    Written RecordKind.traceStep.fields ([("path", .string path), ("operator", .string operator),
      ("result", result.document)] ++ Json.entryIfPresent "arguments" Value.document arguments ++
      [("children", .array (toJsonAll children))]) := by
  refine .field (conveys_text path) (.field (conveys_text operator)
    (.field (conveys_value hfinite.result) ?_))
  cases arguments with
  | none => exact .skip rfl (.field hchildren .nil)
  | some v =>
    have hv := conveys_value (hfinite.arguments v rfl)
    have hnull : v.document ≠ .null :=
      Value.document_ne_null (hfinite.arguments v rfl) fun h => hne (congrArg some h)
    exact .field (hv.present hnull) (.field hchildren .nil)

theorem childrenIn?_eq (path operator : String) (result : Value) (arguments : Option Value)
    (j : Json) :
    childrenIn? ([("path", .string path), ("operator", .string operator),
      ("result", result.document)] ++ Json.entryIfPresent "arguments" Value.document arguments ++
      [("children", j)]) = forest? j := by
  cases arguments <;> simp [childrenIn?, Json.entryIfPresent]

theorem assemble?_eq {path operator : String} {result : Value} {arguments : Option Value}
    {children : List TraceStep} (hfinite : IsFinite ⟨path, operator, result, arguments, children⟩)
    (hne : arguments ≠ some .null) (j : Json) (children' : List TraceStep) :
    assemble? ([("path", .string path), ("operator", .string operator),
      ("result", result.document)] ++ Json.entryIfPresent "arguments" Value.document arguments ++
      [("children", j)]) children' =
        some ⟨path, operator, result.reread, arguments.map Value.reread, children'⟩ := by
  have hresult := (conveys_value hfinite.result).read_eq
  cases arguments with
  | none => simp [assemble?, Json.entryIfPresent, hresult]
  | some v =>
    have hv := conveys_value (hfinite.arguments v rfl)
    have hnull : v.document ≠ .null :=
      Value.document_ne_null (hfinite.arguments v rfl) fun h => hne (congrArg some h)
    simp [assemble?, Json.entryIfPresent, hresult, (hv.present hnull).read_eq]

mutual

/-- **The document of a step conveys it**, every value read back. -/
theorem conveys : ∀ {s : TraceStep}, (∀ t ∈ s.listing, t.IsFinite) →
    (∀ t ∈ s.listing, t.arguments ≠ some .null) →
    Conveys (.record .traceStep) ofJson? s.toJson s.reread
  | ⟨path, operator, result, arguments, children⟩, hfinite, hne => by
    rw [listing, List.forall_mem_cons] at hfinite hne
    have hchildren := conveysAll hfinite.2 hne.2
    have hwritten := written hfinite.1 hne.1 hchildren
    refine ⟨hwritten.legible, hwritten.check_eq, ?_⟩
    rw [toJson, ofJson?, hwritten.fieldsOf_eq, childrenIn?_eq, hchildren.read_eq]
    exact assemble?_eq hfinite.1 hne.1 _ _
  termination_by structural s => s

/-- The documents of the steps of a forest convey it. -/
theorem conveysAll : ∀ {forest : List TraceStep}, (∀ t ∈ listAll forest, t.IsFinite) →
    (∀ t ∈ listAll forest, t.arguments ≠ some .null) →
    Conveys (.list (.record .traceStep)) forest? (.array (toJsonAll forest)) (rereadAll forest)
  | [], _, _ => ⟨trivial, rfl, rfl⟩
  | s :: rest, hfinite, hne => by
    rw [listAll, List.forall_mem_append] at hfinite hne
    have hs := conveys hfinite.1 hne.1
    have hrest := conveysAll hfinite.2 hne.2
    refine ⟨⟨hs.legible, hrest.legible⟩, ?_, ?_⟩
    · have hchecked := hrest.check_eq
      rw [Shape.check] at hchecked ⊢
      simp only [Shape.present, toJsonAll, Shape.checkItems, hs.check_eq] at hchecked ⊢
      exact hchecked
    · have hread := hrest.read_eq
      rw [forest?] at hread ⊢
      rw [toJsonAll, forestOf?, hs.read_eq, hread]
      rfl
  termination_by structural forest => forest

end

/-! ## Equality -/

mutual

/-- **The step that comes back is equal** to the one that was written. -/
theorem beq_reread : ∀ {s : TraceStep}, (∀ t ∈ s.listing, t.WellFormed) →
    (∀ t ∈ s.listing, t.IsFinite) → s.reread.beq s = true
  | ⟨path, operator, result, arguments, children⟩, h, hfinite => by
    rw [listing, List.forall_mem_cons] at h hfinite
    have hresult : (result.reread == result) = true :=
      Value.beq_reread h.1.result hfinite.1.result
    have harguments : (arguments.map Value.reread == arguments) = true := by
      cases arguments with
      | none => rfl
      | some v => exact Value.beq_reread (h.1.arguments v rfl) (hfinite.1.arguments v rfl)
    simp only [reread, beq, beq_self_eq_true, hresult, harguments,
      beqAll_reread h.2 hfinite.2, Bool.and_self]
  termination_by structural s => s

theorem beqAll_reread : ∀ {forest : List TraceStep}, (∀ t ∈ listAll forest, t.WellFormed) →
    (∀ t ∈ listAll forest, t.IsFinite) → beqAll (rereadAll forest) forest = true
  | [], _, _ => rfl
  | s :: rest, h, hfinite => by
    rw [listAll, List.forall_mem_append] at h hfinite
    rw [rereadAll, beqAll, beq_reread h.1 hfinite.1, beqAll_reread h.2 hfinite.2]
    rfl
  termination_by structural forest => forest

end

theorem beqAll_eq_beq : ∀ forest others : List TraceStep, beqAll forest others = (forest == others)
  | [], [] => rfl
  | [], _ :: _ => rfl
  | _ :: _, [] => rfl
  | _ :: rest, _ :: others => congrArg (_ && ·) (beqAll_eq_beq rest others)

end TraceStep

/-! ## Traces -/

/-- Every number in a trace is finite, at any depth. -/
def IsFiniteTrace (trace : List TraceStep) : Prop := ∀ s ∈ TraceStep.listAll trace, s.IsFinite

/-- **The document of a trace conveys it**, every value read back. -/
theorem conveys_trace {trace : List TraceStep} (h : WellFormedTrace trace)
    (hfinite : IsFiniteTrace trace) :
    Conveys (.list (.record .traceStep)) TraceStep.forest? (traceJson trace)
      (TraceStep.rereadAll trace) :=
  TraceStep.conveysAll hfinite fun s hs => (h s hs).ne_null

/-- **The trace that comes back is equal** to the one that was written. -/
theorem beq_rereadAll {trace : List TraceStep} (h : WellFormedTrace trace)
    (hfinite : IsFiniteTrace trace) : (TraceStep.rereadAll trace == trace) = true := by
  rw [← TraceStep.beqAll_eq_beq]
  exact TraceStep.beqAll_reread h hfinite

end DecisionRules
