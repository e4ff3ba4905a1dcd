import DecisionRules.Proofs.Record.Trace

/-!
# Proofs/Record/RoundTrip — a record is read back from its text

What is written as JSON and read again as the same kind of record is an equal record
(`Format.Restores`), if JSON has a place for everything in it: its numbers are finite, its
timestamps have years of four digits and offsets below a day, its counts fit their types
(`IsPortable`), and it does not nest too deep.  The layer that reads the text has to round its
decimals correctly, of which one that settles for its best effort may fall short
(`Json.RoundsCorrectly`).  Two things more are needed of the values in a record, which no format has
a say in: no object repeats a key, and no step of a trace gives `null` for a reason (`WellFormed`).

For each record, the document is written field by field and conveys the record with every value read
back (`reread`); and that is an equal record, since each value read back is an equal value.
-/

namespace DecisionRules

variable {α : Type}

/-- How one kind of record is written and read, and when JSON has a place for what is in one. -/
structure Format (α : Type) where
  kind : RecordKind
  toJson : α → Json
  ofJson? : Json → Option α
  IsPortable : α → Prop

/-- **A record is restored** from its text: if JSON has a place for what is in it, the decimals in
the text are rounded correctly and it does not nest too deep, the text is read as a record of the
same kind, and that is an equal one. -/
def Format.Restores [Rounding] [BEq α] (f : Format α) (a : α) : Prop :=
  f.IsPortable a → (f.toJson a).RoundsCorrectly → (f.toJson a).depth ≤ Json.nestingLimit →
    ∃ b, readText (.record f.kind) f.ofJson? (f.toJson a).write = .ok b ∧ (b == a) = true

/-- It is, if its document conveys something equal. -/
theorem Format.restores [Rounding] [BEq α] {f : Format α} {a b : α}
    (h : f.IsPortable a → Conveys (.record f.kind) f.ofJson? (f.toJson a) b)
    (hequal : f.IsPortable a → (b == a) = true) : f.Restores a :=
  fun hportable hround hdepth => ⟨b, (h hportable).readText_eq hround hdepth, hequal hportable⟩

/-! ## Equality of what comes back -/

/-- A value that is read back is equal to what was written. -/
theorem Value.WellFormed.beq_reread {v : Value} (h : v.WellFormed) (hfinite : v.IsFinite) :
    (v.reread == v) = true := Value.beq_reread h hfinite

instance : ReflBEq (KeyMap String) := ⟨fun {m} => beq_self_eq_true m.entries⟩

/-- Lists are equal if what is done to each item leaves it equal. -/
theorem beq_map [BEq α] {g : α → α} {as : List α} (h : ∀ a ∈ as, (g a == a) = true) :
    (as.map g == as) = true := by
  induction as with
  | nil => rfl
  | cons a rest ih =>
    rw [List.forall_mem_cons] at h
    rw [List.map_cons, List.cons_beq_cons, h.1, ih h.2]
    rfl

/-! ## Regression cases and versions -/

namespace RegressionCase

/-- No object in the case repeats a key. -/
structure WellFormed (c : RegressionCase) : Prop where
  context : c.context.WellFormed
  expected : c.expected.WellFormed

/-- JSON has a place for what is in the case. -/
structure IsPortable (c : RegressionCase) : Prop where
  context : c.context.IsFinite
  expected : c.expected.IsFinite

/-- The case that comes back. -/
def reread (c : RegressionCase) : RegressionCase :=
  { c with context := c.context.reread, expected := c.expected.reread }

theorem conveys {c : RegressionCase} (h : c.IsPortable) :
    Conveys (.record .regressionCase) ofJson? c.toJson c.reread := by
  have hcontext := conveys_value h.context
  have hexpected := conveys_value h.expected
  rcases c with ⟨name, context, expected, _ | description⟩
  · have hwritten : Written RecordKind.regressionCase.fields _ :=
      .field (conveys_text name) (.field hcontext (.field hexpected (.skip rfl .nil)))
    refine hwritten.conveys ?_
    rw [ofJson?, hwritten.fieldsOf_eq]
    simp [hcontext.read_eq, hexpected.read_eq, reread]
  · have hdescription := (conveys_text description).present nofun
    have hwritten : Written RecordKind.regressionCase.fields _ :=
      .field (conveys_text name) (.field hcontext (.field hexpected (.field hdescription .nil)))
    refine hwritten.conveys ?_
    rw [ofJson?, hwritten.fieldsOf_eq]
    simp [hcontext.read_eq, hexpected.read_eq, hdescription.read_eq, reread]

theorem beq_reread {c : RegressionCase} (h : c.WellFormed) (hportable : c.IsPortable) :
    (c.reread == c) = true := by
  have hcontext := h.context.beq_reread hportable.context
  have hexpected := h.expected.beq_reread hportable.expected
  cases c
  change instBEqRegressionCase.beq _ _ = true
  simp_all [instBEqRegressionCase.beq, reread]

end RegressionCase

namespace RuleVersion

/-- No object in the version repeats a key. -/
structure WellFormed (v : RuleVersion) : Prop where
  definition : v.definition.WellFormed
  regressionCases : ∀ c ∈ v.regressionCases, c.WellFormed

/-- JSON has a place for what is in the version. -/
structure IsPortable (v : RuleVersion) : Prop where
  version_lt : v.version < Nat.pow 2 32
  definition : v.definition.IsFinite
  createdAt : v.createdAt.IsWritable
  updatedAt : v.updatedAt.IsWritable
  publishedAt : ∀ t ∈ v.publishedAt, t.IsWritable
  regressionCases : ∀ c ∈ v.regressionCases, c.IsPortable

/-- The version that comes back. -/
def reread (v : RuleVersion) : RuleVersion :=
  { v with
    definition := v.definition.reread
    regressionCases := v.regressionCases.map RegressionCase.reread }

theorem conveys {v : RuleVersion} (h : v.IsPortable) :
    Conveys (.record .ruleVersion) ofJson? v.toJson v.reread := by
  have hversion := conveys_version h.version_lt
  have hdescription := conveys_optionalText v.description
  have hlabels := conveys_labels v.labels
  have hdefinition := conveys_value h.definition
  have hstatus := conveys_status v.status
  have hcreated := conveys_timestamp h.createdAt
  have hupdated := conveys_timestamp h.updatedAt
  have hpublished := conveys_optionalTimestamp h.publishedAt
  have hnotes := conveys_optionalText v.revisionNotes
  have hcases := conveys_list fun c hc => RegressionCase.conveys (h.regressionCases c hc)
  have hwritten : Written RecordKind.ruleVersion.fields _ :=
    .field (conveys_text v.stableId) (.field hversion (.field (conveys_text v.name)
      (.field hdescription (.field hlabels (.field hdefinition (.field hstatus (.field hcreated
        (.field hupdated (.field hpublished (.field hnotes (.field hcases .nil)))))))))))
  refine hwritten.conveys ?_
  rw [ofJson?, hwritten.fieldsOf_eq]
  simp [hversion.read_eq, hdescription.read_eq, hlabels.read_eq, hdefinition.read_eq,
    hstatus.read_eq, hcreated.read_eq, hupdated.read_eq, hpublished.read_eq, hnotes.read_eq,
    hcases.read_eq, reread]

theorem beq_reread {v : RuleVersion} (h : v.WellFormed) (hportable : v.IsPortable) :
    (v.reread == v) = true := by
  have hdefinition := h.definition.beq_reread hportable.definition
  have hcases : (v.regressionCases.map RegressionCase.reread == v.regressionCases) = true :=
    beq_map fun c hc =>
      RegressionCase.beq_reread (h.regressionCases c hc) (hportable.regressionCases c hc)
  cases v
  change instBEqRuleVersion.beq _ _ = true
  simp_all [instBEqRuleVersion.beq, reread]

/-- How versions are written and read. -/
def format : Format RuleVersion := ⟨.ruleVersion, toJson, ofJson?, IsPortable⟩

theorem restores [Rounding] {v : RuleVersion} (h : v.WellFormed) : format.Restores v :=
  Format.restores conveys (beq_reread h)

end RuleVersion

/-! ## Summaries and listings

There are no values in them, so they come back as they were. -/

/-- Version numbers fit their types. -/
structure RuleSummary.IsPortable (s : RuleSummary) : Prop where
  latestVersion_lt : s.latestVersion < Nat.pow 2 32
  publishedVersion_lt : ∀ n ∈ s.publishedVersion, n < Nat.pow 2 32

theorem RuleSummary.conveys {s : RuleSummary} (h : s.IsPortable) :
    Conveys (.record .ruleSummary) ofJson? s.toJson s := by
  have hdescription := conveys_optionalText s.description
  have hlabels := conveys_labels s.labels
  have hlatest := conveys_version h.latestVersion_lt
  have hpublished := conveys_optionalVersion h.publishedVersion_lt
  have hstatus := conveys_status s.status
  have hwritten : Written RecordKind.ruleSummary.fields _ :=
    .field (conveys_text s.stableId) (.field (conveys_text s.name) (.field hdescription
      (.field hlabels (.field hlatest (.field hpublished (.field hstatus .nil))))))
  refine hwritten.conveys ?_
  rw [ofJson?, hwritten.fieldsOf_eq]
  simp [hdescription.read_eq, hlabels.read_eq, hlatest.read_eq, hpublished.read_eq,
    hstatus.read_eq]

instance : ReflBEq RuleSummary := ⟨fun {s} => by
  cases s
  change instBEqRuleSummary.beq _ _ = true
  simp [instBEqRuleSummary.beq]⟩

/-- Counts fit their types, here and in the summaries. -/
structure RuleListing.IsPortable (l : RuleListing) : Prop where
  total_lt : l.total < Nat.pow 2 64
  rules : ∀ s ∈ l.rules, s.IsPortable

theorem RuleListing.conveys {l : RuleListing} (h : l.IsPortable) :
    Conveys (.record .ruleListing) ofJson? l.toJson l := by
  have htotal := conveys_size h.total_lt
  have hrules := conveys_list fun s hs => RuleSummary.conveys (h.rules s hs)
  rw [List.map_id'] at hrules
  have hwritten : Written RecordKind.ruleListing.fields _ := .field htotal (.field hrules .nil)
  refine hwritten.conveys ?_
  rw [ofJson?, hwritten.fieldsOf_eq]
  simp [htotal.read_eq, hrules.read_eq]

instance : ReflBEq RuleListing := ⟨fun {l} => by
  cases l
  change instBEqRuleListing.beq _ _ = true
  simp [instBEqRuleListing.beq]⟩

/-- How listings are written and read. -/
def RuleListing.format : Format RuleListing := ⟨.ruleListing, toJson, ofJson?, IsPortable⟩

theorem RuleListing.restores [Rounding] (l : RuleListing) : format.Restores l :=
  Format.restores conveys fun _ => beq_self_eq_true l

/-! ## Records of evaluations -/

/-- JSON has a place for what is in the receipt. -/
structure Receipt.IsPortable (r : Receipt) : Prop where
  createdAt : r.createdAt.IsWritable
  version_lt : ∀ n ∈ r.version, n < Nat.pow 2 32

theorem Receipt.conveys {r : Receipt} (h : r.IsPortable) :
    Conveys (.record .receipt) ofJson? r.toJson r := by
  have hcreated := conveys_timestamp h.createdAt
  have hid := conveys_optionalText r.stableId
  have hversion := conveys_optionalVersion h.version_lt
  have hwritten : Written RecordKind.receipt.fields _ :=
    .field (conveys_text r.id) (.field hcreated (.field hid (.field hversion .nil)))
  refine hwritten.conveys ?_
  rw [ofJson?, hwritten.fieldsOf_eq]
  simp [hcreated.read_eq, hid.read_eq, hversion.read_eq]

instance : ReflBEq Receipt := ⟨fun {r} => by
  cases r
  change instBEqReceipt.beq _ _ = true
  simp [instBEqReceipt.beq]⟩

/-- How receipts are written and read. -/
def Receipt.format : Format Receipt := ⟨.receipt, toJson, ofJson?, IsPortable⟩

theorem Receipt.restores [Rounding] (r : Receipt) : format.Restores r :=
  Format.restores conveys fun _ => beq_self_eq_true r

namespace Artifact

/-- No object in the artifact repeats a key, and no step gives `null` for a reason. -/
structure WellFormed (a : Artifact) : Prop where
  definition : a.definition.WellFormed
  context : a.context.WellFormed
  result : a.result.WellFormed
  trace : WellFormedTrace a.trace

/-- JSON has a place for what is in the artifact. -/
structure IsPortable (a : Artifact) : Prop where
  version_lt : ∀ n ∈ a.version, n < Nat.pow 2 32
  definition : a.definition.IsFinite
  context : a.context.IsFinite
  result : a.result.IsFinite
  trace : IsFiniteTrace a.trace
  createdAt : a.createdAt.IsWritable

/-- The artifact that comes back. -/
def reread (a : Artifact) : Artifact :=
  { a with
    definition := a.definition.reread
    context := a.context.reread
    result := a.result.reread
    trace := TraceStep.rereadAll a.trace }

theorem conveys {a : Artifact} (h : a.WellFormed) (hportable : a.IsPortable) :
    Conveys (.record .artifact) ofJson? a.toJson a.reread := by
  have hid := conveys_optionalText a.stableId
  have hversion := conveys_optionalVersion hportable.version_lt
  have hdefinition := conveys_value hportable.definition
  have hcontext := conveys_value hportable.context
  have hresult := conveys_value hportable.result
  have htrace := conveys_trace h.trace hportable.trace
  have hcreated := conveys_timestamp hportable.createdAt
  have hwritten : Written RecordKind.artifact.fields _ :=
    .field (conveys_text a.id) (.field hid (.field hversion (.field hdefinition (.field hcontext
      (.field hresult (.field htrace (.field hcreated .nil)))))))
  refine hwritten.conveys ?_
  rw [ofJson?, hwritten.fieldsOf_eq]
  simp [hid.read_eq, hversion.read_eq, hdefinition.read_eq, hcontext.read_eq, hresult.read_eq,
    htrace.read_eq, hcreated.read_eq, reread]

theorem beq_reread {a : Artifact} (h : a.WellFormed) (hportable : a.IsPortable) :
    (a.reread == a) = true := by
  have hdefinition := h.definition.beq_reread hportable.definition
  have hcontext := h.context.beq_reread hportable.context
  have hresult := h.result.beq_reread hportable.result
  have htrace := beq_rereadAll h.trace hportable.trace
  cases a
  change instBEqArtifact.beq _ _ = true
  simp_all [instBEqArtifact.beq, reread]

/-- How artifacts are written and read. -/
def format : Format Artifact := ⟨.artifact, toJson, ofJson?, IsPortable⟩

theorem restores [Rounding] {a : Artifact} (h : a.WellFormed) : format.Restores a :=
  Format.restores (conveys h) (beq_reread h)

end Artifact

namespace EvaluationResponse

/-- No object in the response repeats a key, and no step gives `null` for a reason. -/
structure WellFormed (r : EvaluationResponse) : Prop where
  result : r.result.WellFormed
  trace : WellFormedTrace r.trace

/-- JSON has a place for what is in the response and in its receipt. -/
structure IsPortable (r : EvaluationResponse) : Prop where
  version_lt : ∀ n ∈ r.version, n < Nat.pow 2 32
  result : r.result.IsFinite
  trace : IsFiniteTrace r.trace
  proof : r.proof.IsPortable

/-- The response that comes back. -/
def reread (r : EvaluationResponse) : EvaluationResponse :=
  { r with result := r.result.reread, trace := TraceStep.rereadAll r.trace }

theorem conveys {r : EvaluationResponse} (h : r.WellFormed) (hportable : r.IsPortable) :
    Conveys (.record .evaluationResponse) ofJson? r.toJson r.reread := by
  have hid := conveys_optionalText r.stableId
  have hversion := conveys_optionalVersion hportable.version_lt
  have hresult := conveys_value hportable.result
  have htrace := conveys_trace h.trace hportable.trace
  have hproof := Receipt.conveys hportable.proof
  have hwritten : Written RecordKind.evaluationResponse.fields _ :=
    .field hid (.field hversion (.field hresult (.field htrace (.field hproof .nil))))
  refine hwritten.conveys ?_
  rw [ofJson?, hwritten.fieldsOf_eq]
  simp [hid.read_eq, hversion.read_eq, hresult.read_eq, htrace.read_eq, hproof.read_eq, reread]

theorem beq_reread {r : EvaluationResponse} (h : r.WellFormed) (hportable : r.IsPortable) :
    (r.reread == r) = true := by
  have hresult := h.result.beq_reread hportable.result
  have htrace := beq_rereadAll h.trace hportable.trace
  cases r
  change instBEqEvaluationResponse.beq _ _ = true
  simp_all [instBEqEvaluationResponse.beq, reread]

/-- How responses are written and read. -/
def format : Format EvaluationResponse := ⟨.evaluationResponse, toJson, ofJson?, IsPortable⟩

theorem restores [Rounding] {r : EvaluationResponse} (h : r.WellFormed) : format.Restores r :=
  Format.restores (conveys h) (beq_reread h)

end EvaluationResponse

/-! ## Regression runs -/

namespace CaseOutcome

/-- No object in the outcome repeats a key, and no step gives `null` for a reason. -/
structure WellFormed (c : CaseOutcome) : Prop where
  expected : c.expected.WellFormed
  actual : c.actual.WellFormed
  trace : WellFormedTrace c.trace

/-- JSON has a place for what is in the outcome. -/
structure IsPortable (c : CaseOutcome) : Prop where
  expected : c.expected.IsFinite
  actual : c.actual.IsFinite
  trace : IsFiniteTrace c.trace

/-- The outcome that comes back. -/
def reread (c : CaseOutcome) : CaseOutcome :=
  { c with
    expected := c.expected.reread
    actual := c.actual.reread
    trace := TraceStep.rereadAll c.trace }

theorem conveys {c : CaseOutcome} (h : c.WellFormed) (hportable : c.IsPortable) :
    Conveys (.record .caseOutcome) ofJson? c.toJson c.reread := by
  have hdescription := conveys_optionalText c.description
  have hexpected := conveys_value hportable.expected
  have hactual := conveys_value hportable.actual
  have htrace := conveys_trace h.trace hportable.trace
  have hwritten : Written RecordKind.caseOutcome.fields _ :=
    .field (conveys_text c.name) (.field hdescription (.field (conveys_truth c.success)
      (.field hexpected (.field hactual (.field htrace .nil)))))
  refine hwritten.conveys ?_
  rw [ofJson?, hwritten.fieldsOf_eq]
  simp [hdescription.read_eq, hexpected.read_eq, hactual.read_eq, htrace.read_eq, reread]

theorem beq_reread {c : CaseOutcome} (h : c.WellFormed) (hportable : c.IsPortable) :
    (c.reread == c) = true := by
  have hexpected := h.expected.beq_reread hportable.expected
  have hactual := h.actual.beq_reread hportable.actual
  have htrace := beq_rereadAll h.trace hportable.trace
  cases c
  change instBEqCaseOutcome.beq _ _ = true
  simp_all [instBEqCaseOutcome.beq, reread]

end CaseOutcome

namespace RegressionReport

/-- Every outcome in the report is well-formed. -/
structure WellFormed (r : RegressionReport) : Prop where
  cases : ∀ c ∈ r.cases, c.WellFormed

/-- JSON has a place for what is in the report. -/
structure IsPortable (r : RegressionReport) : Prop where
  version_lt : r.version < Nat.pow 2 32
  total_lt : r.total < Nat.pow 2 64
  passed_lt : r.passed < Nat.pow 2 64
  failed_lt : r.failed < Nat.pow 2 64
  cases : ∀ c ∈ r.cases, c.IsPortable

/-- The report that comes back. -/
def reread (r : RegressionReport) : RegressionReport :=
  { r with cases := r.cases.map CaseOutcome.reread }

theorem conveys {r : RegressionReport} (h : r.WellFormed) (hportable : r.IsPortable) :
    Conveys (.record .regressionReport) ofJson? r.toJson r.reread := by
  have hversion := conveys_version hportable.version_lt
  have htotal := conveys_size hportable.total_lt
  have hpassed := conveys_size hportable.passed_lt
  have hfailed := conveys_size hportable.failed_lt
  have hcases := conveys_list fun c hc => CaseOutcome.conveys (h.cases c hc) (hportable.cases c hc)
  have hwritten : Written RecordKind.regressionReport.fields _ :=
    .field (conveys_text r.stableId) (.field hversion (.field htotal (.field hpassed
      (.field hfailed (.field hcases .nil)))))
  refine hwritten.conveys ?_
  rw [ofJson?, hwritten.fieldsOf_eq]
  simp [hversion.read_eq, htotal.read_eq, hpassed.read_eq, hfailed.read_eq, hcases.read_eq, reread]

theorem beq_reread {r : RegressionReport} (h : r.WellFormed) (hportable : r.IsPortable) :
    (r.reread == r) = true := by
  have hcases : (r.cases.map CaseOutcome.reread == r.cases) = true :=
    beq_map fun c hc => CaseOutcome.beq_reread (h.cases c hc) (hportable.cases c hc)
  cases r
  change instBEqRegressionReport.beq _ _ = true
  simp_all [instBEqRegressionReport.beq, reread]

/-- How reports are written and read. -/
def format : Format RegressionReport := ⟨.regressionReport, toJson, ofJson?, IsPortable⟩

theorem restores [Rounding] {r : RegressionReport} (h : r.WellFormed) : format.Restores r :=
  Format.restores (conveys h) (beq_reread h)

end RegressionReport

end DecisionRules
