import DecisionRules.Proofs.Engine.Handover
import DecisionRules.Proofs.Value.Appearance

/-!
# Proofs/Engine/VisibleFailure — what a failed case shows

A regression run compares the value expected with the value found, and reports both.  What is read
in a report are their texts.  A case fails because the two values are not equal; whether one sees
that in the texts is another question, since equality looks at doubles and a text has `null` for
every double that is not finite.

So a failure can be hidden, by a computation that leaves the range of doubles
(`Engine.failure_hidden`), and only in this way: wherever both values are finite their texts differ,
and in general they are the same just if the values are told apart by such doubles alone
(`Engine.failure_shows`).
-/

namespace DecisionRules.Engine

variable {src : Sources} {r : RegressionRequest} {e e' : Engine} {report : RegressionReport}

/-- **What a failed case shows.**  Take a report of a regression run, and a case in it that is no
success.  The texts of the value expected and of the value found are the same just if the two values
are equal, and have their keys in the same order, once every double that is not finite is replaced
by `null`.  So they differ if all doubles in the two values are finite. -/
theorem failure_shows (hcatalog : e.catalog.WellFormed) (hcases : ∀ c ∈ r.cases, c.WellFormed)
    (h : e.regress src r = (.ok report, e')) : ∀ o ∈ report.cases, o.success = false →
      (o.expected.text = o.actual.text ↔
        (o.expected.eraseNonFinite == o.actual.eraseNonFinite) = true ∧
          o.expected.outline = o.actual.outline) ∧
      (o.expected.IsFinite → o.actual.IsFinite → o.expected.text ≠ o.actual.text) := by
  intro o ho hfailed
  obtain ⟨rule, hget, houtcomes⟩ := exists_caseOutcomes_of_regress h
  have hrule := hcatalog.get hget
  obtain ⟨test, htest, hreports⟩ := exists_reports_of_caseOutcomes houtcomes ho
  have hformed := hreports.wellFormed hrule.definition (wellFormed_chosen hcases hrule test htest)
  have hsame := Value.text_eq_iff hformed.expected hformed.actual
  refine ⟨hsame, fun hexpected hactual htext => ?_⟩
  obtain ⟨hbeq, -⟩ := hsame.mp htext
  rw [Value.eraseNonFinite_of_isFinite hexpected, Value.eraseNonFinite_of_isFinite hactual] at hbeq
  have hsuccess : o.success = true :=
    hreports.success_iff.mpr (Value.beq_symm hformed.expected hformed.actual hbeq)
  exact absurd hsuccess (Bool.eq_false_iff.mp hfailed)

/-- A rule that multiplies by ten, with a case that leaves the range of doubles and expects `null`,
and one that expects the wrong number. -/
def timesTen : RuleVersion where
  stableId := "product"
  version := 1
  name := "Product"
  description := none
  labels := KeyMap.empty
  definition := .object [("*", .array [.object [("var", .string "x")], .number 10])]
  status := .draft
  createdAt := ⟨0, 0⟩
  updatedAt := ⟨0, 0⟩
  publishedAt := none
  revisionNotes := none
  regressionCases :=
    [⟨"large", .object [("x", .number (.ofBits 0x7FE1CCF385EBC8A0))], .null, none⟩,
      ⟨"small", .object [("x", .number 1)], .number 1, none⟩]

/-- An engine that knows this rule only. -/
def multiplying : Engine := ⟨Catalog.empty.withHistory "product" [timesTen], Journal.empty⟩

/-- The two failures of the rule: one has the same text twice, the other has not. -/
theorem failure_shows_multiplying :
    let src : Sources := ⟨fun _ => ⟨0, 0⟩, fun _ => ""⟩
    let r : RegressionRequest := ⟨"product", none, false, []⟩
    ∃ report e' large small, multiplying.regress src r = (.ok report, e') ∧
      report.cases = [large, small] ∧ large.success = false ∧ small.success = false ∧
      large.expected.text = large.actual.text ∧ small.expected.text ≠ small.actual.text := by
  intro src r
  have htimesTen : timesTen.WellFormed := by
    refine ⟨?definition, List.forall_mem_cons.mpr
      ⟨⟨?context, trivial⟩, List.forall_mem_singleton.mpr ⟨?context', trivial⟩⟩⟩
    all_goals simp [timesTen, Value.WellFormed, Value.WellFormedItems, Value.WellFormedEntries]
  have hcatalog : multiplying.catalog.WellFormed :=
    Catalog.WellFormed.empty.withHistory (List.forall_mem_singleton.mpr htimesTen)
  have hcases : ∀ c ∈ r.cases, c.WellFormed := fun _ hc => absurd hc List.not_mem_nil
  obtain ⟨report, e', large, small, hregress, hreport, hlarge, hsmall, herased, hfinite⟩ :
      ∃ report e' large small, multiplying.regress src r = (.ok report, e') ∧
        report.cases = [large, small] ∧ large.success = false ∧ small.success = false ∧
        ((large.expected.eraseNonFinite == large.actual.eraseNonFinite) = true ∧
          large.expected.outline = large.actual.outline) ∧
        small.expected.IsFinite ∧ small.actual.IsFinite := by
    refine ⟨_, _, _, _, rfl, rfl, rfl, rfl, ⟨by decide +kernel, rfl⟩, ?_, ?_⟩
    · change Binary64.isFinite 1 = true
      decide +kernel
    · change Binary64.isFinite (1 * 10) = true
      decide +kernel
  have hshows := failure_shows hcatalog hcases hregress
  rw [hreport] at hshows
  exact ⟨report, e', large, small, hregress, hreport, hlarge, hsmall,
    (hshows large (by simp) hlarge).1.mpr herased,
    (hshows small (by simp) hsmall).2 hfinite.1 hfinite.2⟩

/-- **A failure can be hidden**: the product leaves the range of doubles, so it is not the `null`
expected, and is printed like it. -/
theorem failure_hidden :
    let src : Sources := ⟨fun _ => ⟨0, 0⟩, fun _ => ""⟩
    let r : RegressionRequest := ⟨"product", none, false, []⟩
    ∃ report e' o, multiplying.regress src r = (.ok report, e') ∧ o ∈ report.cases ∧
      o.success = false ∧ o.expected.text = o.actual.text := by
  refine ⟨_, _, _, rfl, List.mem_cons_self, rfl, ?_⟩
  decide +kernel

end DecisionRules.Engine
