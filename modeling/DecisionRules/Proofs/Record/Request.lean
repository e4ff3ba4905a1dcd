import DecisionRules.Proofs.Record.RoundTrip

/-!
# Proofs/Record/Request — a request is read back from its text

An evaluation request comes back from its JSON form, like every other record, with one exception. It
may have an expression of its own or not, and no expression is written as `null`; but `null` is an
expression as well, and is written in the same way (`EvaluationRequest.toJson_null`).  What is read
back then is a request without an expression of its own.

Every other request is restored (`EvaluationRequest.restores`).
-/

namespace DecisionRules

namespace EvaluationRequest

/-- No object in the request repeats a key. -/
structure WellFormed (r : EvaluationRequest) : Prop where
  logic : ∀ v ∈ r.logic, v.WellFormed
  context : r.context.WellFormed

/-- JSON has a place for the numbers in the request. -/
structure IsPortable (r : EvaluationRequest) : Prop where
  logic : ∀ v ∈ r.logic, v.IsFinite
  version_lt : ∀ n ∈ r.version, n < Nat.pow 2 32
  context : r.context.IsFinite

/-- The request that comes back. -/
def reread (r : EvaluationRequest) : EvaluationRequest :=
  { r with logic := r.logic.map Value.reread, context := r.context.reread }

theorem conveys {r : EvaluationRequest} (h : r.IsPortable) (hlogic : r.logic ≠ some .null) :
    Conveys (.record .evaluationRequest) ofJson? r.toJson r.reread := by
  have hlogic := conveys_ofOption (fun v hv => conveys_value (h.logic v hv)) fun v hv =>
    Value.document_ne_null (h.logic v hv) fun hnull => hlogic (hnull ▸ hv)
  have hid := conveys_optionalText r.stableId
  have hversion := conveys_optionalVersion h.version_lt
  have hcontext := conveys_value h.context
  have hlatest := conveys_truth r.preferLatest
  have hwritten : Written RecordKind.evaluationRequest.fields _ :=
    .field hlogic (.field hid (.field hversion (.field hcontext (.field hlatest .nil))))
  refine hwritten.conveys ?_
  rw [ofJson?, hwritten.fieldsOf_eq]
  simp [hlogic.read_eq, hid.read_eq, hversion.read_eq, hcontext.read_eq, reread]

theorem beq_reread {r : EvaluationRequest} (h : r.WellFormed) (hportable : r.IsPortable) :
    (r.reread == r) = true := by
  have hcontext := h.context.beq_reread hportable.context
  have hlogic : (r.logic.map Value.reread == r.logic) = true := by
    rcases hlogic : r.logic with _ | v
    · rfl
    · exact (h.logic v hlogic).beq_reread (hportable.logic v hlogic)
  cases r
  change instBEqEvaluationRequest.beq _ _ = true
  simp_all [instBEqEvaluationRequest.beq, reread]

/-- How evaluation requests are written and read. -/
def format : Format EvaluationRequest := ⟨.evaluationRequest, toJson, ofJson?, IsPortable⟩

/-- **A request is restored**, unless its expression is `null`. -/
theorem restores [Rounding] {r : EvaluationRequest} (h : r.WellFormed)
    (hlogic : r.logic ≠ some .null) : format.Restores r :=
  Format.restores (fun hportable => conveys hportable hlogic) (beq_reread h)

/-- **The expression `null` is written like no expression.** -/
theorem toJson_null (r : EvaluationRequest) :
    { r with logic := some .null }.toJson = { r with logic := none }.toJson := rfl

end EvaluationRequest

end DecisionRules
