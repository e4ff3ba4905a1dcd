import DecisionRules.Proofs.Engine.Step

/-!
# Proofs/Engine/Failure — a request that fails changes nothing, or only adds records

A request can fail at several points, after different amounts of work.  All of them come before the
first change of a catalog, so a failure leaves every catalog as it was; and all but one come before
the first record (`Session.unchanged_of_error`).  The exception is a regression run that breaks off:
the cases before are on record and stay there.

For the changes of a catalog the order of checks and writes is settled where they are shown to be
all or nothing (`Catalog.Work.carryOut_located`); what is left is to see that every error is one of
theirs, or of something that does not write.
-/

namespace DecisionRules

/-- No effect on a catalog goes with an error. -/
theorem Catalog.Effect.eq_of_error {now : Timestamp} {r : Request} {err : EngineError}
    {c c' : Catalog} (h : Catalog.Effect now r (.error err) c c') : c' = c := by
  cases h with
  | failed => rfl
  | kept => rfl

namespace Engine

variable {src : Sources} {e : Engine} {r : Request} {err : EngineError}

/-! ## The store

Emptying the store does not fail, so a failure can only have added to it.  Only evaluations add, and
one on its own fails before it records. -/

/-- What may record is an evaluation or a regression run. -/
theorem MayRecord.asked {a : Artifact} (h : e.MayRecord r a) :
    (∃ q, r = .evaluate q) ∨ ∃ q, r = .regress q := by
  cases h with
  | evaluated => exact .inl ⟨_, rfl⟩
  | tested => exact .inr ⟨_, rfl⟩

theorem ne_clearArtifacts_of_error (h : (e.perform src r).1 = .error err) :
    r ≠ .clearArtifacts := by
  rintro rfl
  cases h

/-- A failure leaves in the store what was there. -/
theorem artifacts_prefix_of_error (h : (e.perform src r).1 = .error err) :
    e.journal.store.artifacts <+: (e.perform src r).2.journal.store.artifacts := by
  obtain ⟨made, -, hmade⟩ := artifacts_perform src e (ne_clearArtifacts_of_error h)
  exact ⟨made, hmade.symm⟩

/-- **Outside of regression runs a failure leaves the store as it was.** -/
theorem store_of_error (hregress : ∀ q, r ≠ .regress q) (h : (e.perform src r).1 = .error err) :
    (e.perform src r).2.journal.store = e.journal.store := by
  by_cases hevaluate : ∃ q, r = .evaluate q
  · obtain ⟨q, rfl⟩ := hevaluate
    obtain ⟨_, hq⟩ | ⟨_, _, _, _, -, -, hq⟩ := evaluate_cases src q e
    · rw [perform, answering, hq]
    · rw [perform, answering, hq] at h
      cases h
  · obtain ⟨made, hmay, hmade⟩ := store_perform src e (ne_clearArtifacts_of_error h)
    have hnone : made = [] := by
      refine List.eq_nil_iff_forall_not_mem.mpr fun a ha => ?_
      obtain hasked | ⟨q, hq⟩ := (hmay a ha).asked
      · exact hevaluate hasked
      · exact hregress q hq
    rw [hnone] at hmade
    exact hmade

end Engine

namespace Session

variable {ι : Type} [DecidableEq ι] {src : Sources} {s : Session ι} {who : ι} {r : Request}
  {err : EngineError}

/-- A failure leaves every catalog as it was. -/
theorem catalogs_of_error (h : (s.perform src who r).1 = .error err) :
    (s.perform src who r).2.catalogs = s.catalogs := by
  funext i
  by_cases hi : i = who
  · subst hi
    have heffect := s.effect_perform src i r
    rw [h] at heffect
    exact heffect.eq_of_error
  · exact catalogs_perform_of_ne hi src r s

/-- **A request that fails changes nothing, or only adds records.**  Every catalog is as before.
What was in the store is still there, in the same order; and unless the request was for a regression
run, nothing has been added. -/
theorem unchanged_of_error (h : (s.perform src who r).1 = .error err) :
    (s.perform src who r).2.catalogs = s.catalogs ∧
      s.journal.store.artifacts <+: (s.perform src who r).2.journal.store.artifacts ∧
      ((∀ q, r ≠ .regress q) → (s.perform src who r).2.journal.store = s.journal.store) := by
  have hkept : s.journal.store.artifacts <+: (s.perform src who r).2.journal.store.artifacts :=
    Engine.artifacts_prefix_of_error h
  exact ⟨catalogs_of_error h, hkept, fun hregress => Engine.store_of_error hregress h⟩

/-- Putting a version in force that is not there, while another one is. -/
theorem unchanged_of_error_publish :
    let draft : RuleDraft := ⟨"yes", "Yes", none, .bool true, KeyMap.empty, none, []⟩
    let src : Sources := ⟨fun n => ⟨n, 0⟩, fun n => toString n⟩
    let s := (run src [(true, .create draft), (true, .publish "yes" 1 none)] empty).2
    (∃ err, (s.perform src true (.publish "yes" 2 none)).1 = .error err) ∧
      (s.perform src true (.publish "yes" 2 none)).2.catalogs = s.catalogs ∧
      (s.perform src true (.publish "yes" 2 none)).2.journal.store = s.journal.store := by
  intro draft src s
  have hfails : (s.perform src true (.publish "yes" 2 none)).1.isOk = false := by decide +kernel
  rcases h : (s.perform src true (.publish "yes" 2 none)).1 with err | answer
  · obtain ⟨hcatalogs, -, hstore⟩ := unchanged_of_error h
    exact ⟨⟨err, rfl⟩, hcatalogs, hstore nofun⟩
  · rw [h] at hfails
    cases hfails

end Session

end DecisionRules
