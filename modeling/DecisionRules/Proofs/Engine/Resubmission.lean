import DecisionRules.Proofs.Engine.Provenance
import DecisionRules.Proofs.Record.Request
import DecisionRules.Proofs.Rule.ZeroSign

/-!
# Proofs/Engine/Resubmission — a request that is read back is answered in the same way

A request that went through its JSON form is equal to what it was, and differs from it in the signs
of zeros at most, which JSON has no place for.  Every engine answers the two in the same way
(`Engine.sameOutcome_of_akin`): with the same error, or with the same response and the same record.
The responses, records and errors may differ in the signs of zeros again, and that does not show:
they have the same JSON form and the same message.

The one request that this does not hold of is one for the expression `null`
(`EvaluationRequest.readBack_null`).
-/

namespace DecisionRules

/-! ## Answers and records without the signs of zeros -/

/-- A response without the signs of zeros. -/
def EvaluationResponse.unsigned (r : EvaluationResponse) : EvaluationResponse :=
  { r with result := r.result.unsigned, trace := TraceStep.unsignedAll r.trace }

/-- An artifact without the signs of zeros. -/
def Artifact.unsigned (a : Artifact) : Artifact :=
  { a with
    definition := a.definition.unsigned
    context := a.context.unsigned
    result := a.result.unsigned
    trace := TraceStep.unsignedAll a.trace }

/-- An error without the signs of zeros. -/
def EngineError.unsigned : EngineError → EngineError
  | .eval err => .eval err.unsigned
  | err => err

/-! ### They look the same -/

theorem Value.typeName_unsigned (v : Value) : v.unsigned.typeName = v.typeName := by
  cases v <;> rfl

theorem Value.text_unsigned (v : Value) : v.unsigned.text = v.text :=
  congrArg Json.write v.document_unsigned

theorem ArgumentFault.message_notIterable (v : Value) :
    (notIterable v.unsigned).message = (notIterable v).message :=
  congrArg ("expects an iterable sequence, got " ++ ·) v.typeName_unsigned

theorem ArgumentFault.message_notSearchable (v : Value) :
    (notSearchable v.unsigned).message = (notSearchable v).message :=
  congrArg ("cannot search a " ++ · ++ " haystack") v.typeName_unsigned

theorem EvalError.message_unsigned (err : EvalError) : err.unsigned.message = err.message := by
  cases err with
  | notNumeric operator v =>
    exact congrArg₂
      (fun kind text =>
        "'" ++ operator.name ++ "' expects numbers, got " ++ kind ++ " value " ++ text)
      v.typeName_unsigned v.text_unsigned
  | invalidArguments operator fault =>
    have hmessage {fault fault' : ArgumentFault} (h : fault.message = fault'.message) :
        (invalidArguments operator fault).message = (invalidArguments operator fault').message :=
      congrArg ("'" ++ operator.name ++ "' " ++ ·) h
    cases fault with
    | notIterable v => exact hmessage (ArgumentFault.message_notIterable v)
    | notSearchable v => exact hmessage (ArgumentFault.message_notSearchable v)
    | _ => rfl
  | _ => rfl

/-- **The message of an error** does not show the sign of a zero. -/
theorem EngineError.message_unsigned (err : EngineError) : err.unsigned.message = err.message := by
  cases err with
  | eval err => exact err.message_unsigned
  | _ => rfl

namespace TraceStep

mutual

theorem toJson_unsigned : ∀ s : TraceStep, s.unsigned.toJson = s.toJson
  | ⟨path, operator, result, arguments, children⟩ => by
    rw [unsigned, toJson, toJson, result.document_unsigned, toJsonAll_unsigned children]
    cases arguments with
    | none => rfl
    | some v => simp only [Option.map_some, Json.entryIfPresent, v.document_unsigned]
  termination_by structural s => s

theorem toJsonAll_unsigned : ∀ forest : List TraceStep,
    toJsonAll (unsignedAll forest) = toJsonAll forest
  | [] => rfl
  | s :: rest => congrArg₂ List.cons (toJson_unsigned s) (toJsonAll_unsigned rest)
  termination_by structural forest => forest

end

end TraceStep

/-- **The JSON form of a response** does not show the sign of a zero. -/
theorem EvaluationResponse.toJson_unsigned (r : EvaluationResponse) :
    r.unsigned.toJson = r.toJson := by
  simp only [toJson, unsigned, traceJson, Value.document_unsigned, TraceStep.toJsonAll_unsigned]

/-- **The JSON form of an artifact** does not show the sign of a zero. -/
theorem Artifact.toJson_unsigned (a : Artifact) : a.unsigned.toJson = a.toJson := by
  simp only [toJson, unsigned, traceJson, Value.document_unsigned, TraceStep.toJsonAll_unsigned]

/-! ## Akin requests -/

/-- Two requests that differ in the signs of zeros at most. -/
structure EvaluationRequest.Akin (q r : EvaluationRequest) : Prop where
  logic : Option.Rel Value.Akin q.logic r.logic
  stableId : q.stableId = r.stableId
  version : q.version = r.version
  context : q.context.Akin r.context
  preferLatest : q.preferLatest = r.preferLatest

/-- A request that is read back is akin to what was written. -/
theorem EvaluationRequest.akin_reread {r : EvaluationRequest} (h : r.WellFormed)
    (hportable : r.IsPortable) : r.reread.Akin r := by
  refine ⟨?_, rfl, rfl, Value.akin_reread h.context hportable.context, rfl⟩
  rw [reread]
  rcases hlogic : r.logic with _ | v
  · exact .none
  · exact .some (Value.akin_reread (h.logic v hlogic) (hportable.logic v hlogic))

namespace Engine

/-- An engine that has recorded one more artifact, under a new name and at a new time. -/
def recorded (a : Artifact) (e : Engine) : Engine :=
  { e with
    journal := ⟨e.journal.store.record a, e.journal.readings + 1, e.journal.issued + 1⟩ }

/-- **Two evaluations with the same outcome**, up to the signs of zeros: the same error, which
leaves the engine as it was, or the same response, with the same artifact on record. -/
inductive SameOutcome (e : Engine) :
    (x y : Except EngineError EvaluationResponse × Engine) → Prop
  | fails {err err' : EngineError} (h : err.unsigned = err'.unsigned) :
    SameOutcome e (.error err, e) (.error err', e)
  | answers {r r' : EvaluationResponse} {a a' : Artifact} (hresponse : r.unsigned = r'.unsigned)
    (hartifact : a.unsigned = a'.unsigned) :
    SameOutcome e (.ok r, e.recorded a) (.ok r', e.recorded a')

variable {q r : EvaluationRequest}

/-- **Akin requests name akin expressions**, to be recorded under the same rule, or nothing for the
same reason. -/
theorem target_akin (h : q.Akin r) (c : Catalog) :
    (∃ err, target c q = .error err ∧ target c r = .error err) ∨
      ∃ definition definition' stableId version, target c q = .ok (definition, stableId, version) ∧
        target c r = .ok (definition', stableId, version) ∧ definition.Akin definition' := by
  have hlogic := h.logic
  rcases hq : q.logic with _ | e <;> rcases hr : r.logic with _ | e' <;> rw [hq, hr] at hlogic
  · -- Neither has an expression, so both look up the same version.
    have hsame : target c q = target c r := by
      simp only [target, hq, hr, h.stableId, h.version, h.preferLatest]
    rcases htarget : target c r with err | ⟨definition, stableId, version⟩
    · exact .inl ⟨err, hsame.trans htarget, rfl⟩
    · exact .inr ⟨definition, definition, stableId, version, hsame.trans htarget, rfl, .refl _⟩
  · cases hlogic
  · cases hlogic
  · refine .inr ⟨e, e', r.stableId, r.version, ?_, target_eq_ok_iff.mpr (.inPlace hr),
      Option.rel_some_some.mp hlogic⟩
    rw [← h.stableId, ← h.version]
    exact target_eq_ok_iff.mpr (.inPlace hq)

/-- **Akin requests are answered in the same way**, by every engine in every state. -/
theorem sameOutcome_of_akin (h : q.Akin r) (src : Sources) (e : Engine) :
    e.SameOutcome (e.evaluate src q) (e.evaluate src r) := by
  obtain ⟨err, hq, hr⟩ | ⟨definition, definition', stableId, version, hq, hr, hdefinition⟩ :=
    target_akin h e.catalog
  · rw [evaluate, evaluate, hq, hr]
    exact .fails rfl
  · obtain ⟨evaluation, evaluation', heval, heval', hresult, htrace⟩ |
      ⟨fault, fault', hfault, hfault', hsame⟩ := evaluate_akin hdefinition h.context
    · have hvalue : evaluation.result.unsigned = evaluation'.result.unsigned := hresult
      have hexpression : definition.unsigned = definition'.unsigned := hdefinition
      have hcontext : q.context.unsigned = r.context.unsigned := h.context
      rw [evaluate_of_ok hq heval, evaluate_of_ok hr heval']
      refine .answers ?_ ?_
      · simp only [EvaluationResponse.unsigned, hvalue, htrace]
        rfl
      · simp only [Artifact.unsigned, hvalue, hexpression, hcontext, htrace]
    · rw [evaluate_of_error hq hfault, evaluate_of_error hr hfault']
      exact .fails (congrArg EngineError.eval hsame)

end Engine

/-- **A request that is read back from its text** is equal to what was written, and every engine in
every state evaluates it to the same outcome, unless its expression is `null`.  The layer that reads
is taken to round the decimals in the text correctly. -/
theorem EvaluationRequest.readBack [Rounding] {r : EvaluationRequest} (h : r.WellFormed)
    (hportable : r.IsPortable) (hround : r.toJson.RoundsCorrectly) (hdepth : r.toJson.depth ≤ 127)
    (hlogic : r.logic ≠ some .null) :
    ∃ q, readText (.record .evaluationRequest) EvaluationRequest.ofJson? r.toJson.write = .ok q ∧
      (q == r) = true ∧
      ∀ (src : Sources) (e : Engine), e.SameOutcome (e.evaluate src q) (e.evaluate src r) :=
  ⟨r.reread, (conveys hportable hlogic).readText_eq hround hdepth, beq_reread h hportable,
    Engine.sameOutcome_of_akin (akin_reread h hportable)⟩

/-- A request with an expression, a rule, a number and a context, in which minus zero occurs. -/
theorem EvaluationRequest.readBack_minusZero :
    letI : Rounding := .toNearest
    let minusZero : Value := .number (.ofBits 0x8000000000000000)
    let r : EvaluationRequest :=
      ⟨some (.object [("max", .array [minusZero, .object [("var", .string "x")]])]), some "scratch",
        some 9, .object [("x", .array [minusZero])], true⟩
    r.WellFormed ∧ r.IsPortable ∧ r.toJson.RoundsCorrectly ∧ r.toJson.depth ≤ 127 ∧
      r.logic ≠ some .null ∧
      ∃ q, readText (.record .evaluationRequest) EvaluationRequest.ofJson? r.toJson.write = .ok q ∧
        (q == r) = true ∧
        ∀ (src : Sources) (e : Engine), e.SameOutcome (e.evaluate src q) (e.evaluate src r) := by
  let : Rounding := .toNearest
  intro minusZero r
  have hfinite : minusZero.IsFinite := by
    simp only [minusZero, Value.IsFinite]
    decide +kernel
  have hkeys : r.WellFormed := by
    constructor <;>
      simp [r, minusZero, Value.WellFormed, Value.WellFormedItems, Value.WellFormedEntries]
  have hportable : r.IsPortable := by
    constructor <;>
      simp [r, Value.IsFinite, Value.IsFiniteItems, Value.IsFiniteEntries, hfinite]
  have hround : r.toJson.RoundsCorrectly := Json.roundsCorrectly_toNearest _
  have hdepth : r.toJson.depth ≤ 127 := by decide +kernel
  have hlogic : r.logic ≠ some .null := by simp [r]
  exact ⟨hkeys, hportable, hround, hdepth, hlogic,
    EvaluationRequest.readBack hkeys hportable hround hdepth hlogic⟩

/-- **The expression `null` is lost**, however decimals are rounded: a request for it is read back
as one that names nothing, which fails wherever the request itself is evaluated. -/
theorem EvaluationRequest.readBack_null :
    let r : EvaluationRequest := ⟨some .null, none, none, .emptyObject, false⟩
    r.WellFormed ∧ r.IsPortable ∧ r.toJson.depth ≤ 127 ∧ ∀ [Rounding], r.toJson.RoundsCorrectly ∧
      ∃ q, readText (.record .evaluationRequest) EvaluationRequest.ofJson? r.toJson.write = .ok q ∧
        (q == r) = false ∧ ∀ (src : Sources) (e : Engine),
          (∃ response, (e.evaluate src r).1 = .ok response ∧ response.result = .null) ∧
            (e.evaluate src q).1 = .error .missingTarget := by
  intro r
  let q : EvaluationRequest := ⟨none, none, none, .emptyObject, false⟩
  have hkeys : r.WellFormed := by
    constructor <;> simp [r, Value.WellFormed, Value.emptyObject, Value.WellFormedEntries]
  have hportable : r.IsPortable := by
    constructor <;> simp [r, Value.IsFinite, Value.emptyObject, Value.IsFiniteEntries]
  have hportable' : q.IsPortable := by
    constructor <;> simp [q, Value.IsFinite, Value.emptyObject, Value.IsFiniteEntries]
  have hdepth : q.toJson.depth ≤ 127 := by decide +kernel
  refine ⟨hkeys, hportable, hdepth, fun {_} => ?_⟩
  -- There is no number in the document, so nothing is rounded.
  have hround : q.toJson.RoundsCorrectly := fun _ hn => absurd hn List.not_mem_nil
  have hread :
      readText (.record .evaluationRequest) EvaluationRequest.ofJson? r.toJson.write = .ok q :=
    (EvaluationRequest.conveys hportable' (by simp [q])).readText_eq hround hdepth
  exact ⟨hround, q, hread, rfl, fun src e => ⟨⟨_, rfl, rfl⟩, rfl⟩⟩

end DecisionRules
