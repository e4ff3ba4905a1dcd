import DecisionRules.Proofs.Engine.Step

/-!
# Proofs/Engine/Replay — every artifact can be evaluated again

An artifact holds the definition and the context of an evaluation, so the evaluation can be made
again.  What a request records is a record of what it evaluated (`Engine.MayRecord.replays`), and no
request changes an artifact that is there, so in a session every artifact replays, whichever engine
recorded it and however often the rules have changed since.
-/

namespace DecisionRules

/-! ## The store stays replayable -/

/-- Every artifact of a store replays. -/
def ArtifactStore.Replays (s : ArtifactStore) : Prop := ∀ a ∈ s.artifacts, a.Replays

theorem ArtifactStore.replays_empty : ArtifactStore.empty.Replays :=
  fun _ ha => absurd ha List.not_mem_nil

/-- **A request to an engine keeps the store replayable** — also one that fails half-way. -/
theorem Engine.replays_perform (src : Sources) (r : Request) (e : Engine)
    (h : e.journal.store.Replays) : (e.perform src r).2.journal.store.Replays := by
  rcases Classical.em (r = .clearArtifacts) with rfl | hr
  · exact ArtifactStore.replays_empty
  · obtain ⟨made, hmade, hstore⟩ := e.artifacts_perform src hr
    intro a ha
    rw [hstore] at ha
    rcases List.mem_append.mp ha with hold | hnew
    · exact h a hold
    · exact (hmade a hnew).replays

namespace Session

variable {ι : Type} [DecidableEq ι]

/-- **Evaluating again what an artifact holds gives what it holds**, result and trace, in every
session and for every artifact that is in its store. -/
theorem evaluate_artifact_of_run (src : Sources) (requests : List (ι × Request)) (a : Artifact)
    (h : a ∈ (run src requests empty).2.journal.store.artifacts) :
    evaluate a.definition a.context = .ok ⟨a.result, a.trace⟩ := by
  have hstep : ∀ (who : ι) (r : Request) (s : Session ι), s.journal.store.Replays →
      (s.perform src who r).2.journal.store.Replays :=
    fun who r s hs => (s.engine who).replays_perform src r hs
  exact run_invariant (P := fun s => s.journal.store.Replays) hstep requests
    ArtifactStore.replays_empty a h

/-- A regression run of one engine that breaks off at its second case; another engine is asked
something in between, and the rule is gone in the end. -/
theorem evaluate_artifact_of_run_brokenOff :
    let unset : Value := .object [("bl_any", .array [.object [("var", .string "xs")],
      .object [("!", .array [.object [("var", .string "item")]])]])]
    let draft : RuleDraft := ⟨"any-unset", "Any unset", none, unset, KeyMap.empty, none, []⟩
    let cases : List RegressionCase :=
      [⟨"holds", .object [("xs", .array [.null])], .bool true, none⟩,
        ⟨"fails", .object [("xs", .bool true)], .bool true, none⟩]
    let requests : List (Bool × Request) :=
      [(true, .create draft), (true, .regress ⟨draft.stableId, none, false, cases⟩),
        (false, .publish draft.stableId 1 none), (true, .clearCatalog)]
    let src : Sources := ⟨fun n => ⟨n, 0⟩, fun n => toString n⟩
    ∃ a, (run src requests empty).2.journal.store.artifacts = [a] ∧
      evaluate a.definition a.context = .ok ⟨a.result, a.trace⟩ := by
  intro unset draft cases requests src
  have hlength : (run src requests empty).2.journal.store.artifacts.length = 1 := by
    decide +kernel
  obtain ⟨a, ha⟩ := List.length_eq_one_iff.mp hlength
  exact ⟨a, ha, evaluate_artifact_of_run src requests a (ha ▸ List.mem_singleton_self a)⟩

end Session

end DecisionRules
