import DecisionRules.Proofs.Number.Order
import DecisionRules.Proofs.Rule.Congruence
import DecisionRules.Proofs.Rule.Verdict

/-!
# Proofs/Rule/Presence — what is missing is what a lookup finds to be null

`var` looks a path up and gives `null` where there is nothing.  `missing` and `missing_some` sort
paths by a test of their own (`Value.hasAt`), which holds where something other than `null` is
found.  So a path is missing exactly if a `var` gives `null` there (`Rule.givesNull_eq`), and all
that either operator knows of a list of paths is which of them those are (`Rule.presence_strings`).

The threshold of `missing_some` is any double, and the count of what is there is compared with it as
a double.  Up to `2 ^ 53` that is the count itself, so it is fewer than the threshold if it is fewer
than the number that the threshold is (`Binary64.ofInt_lt_iff`); nothing is fewer than no number.
-/

namespace DecisionRules

/-- A count compares with a double as the number it is. -/
theorem Binary64.ofInt_lt_iff {n : ℕ} (h : n < 2 ^ 53) {x : Float} :
    ofInt n < x ↔ ∃ r, value? x = some r ∧ ((n : ℝ) : EReal) < r := by
  rw [lt_iff, value?_ofInt h]
  constructor
  · rintro ⟨p, r, hp, hr, hlt⟩
    rw [Option.some_inj] at hp
    exact ⟨r, hr, hp ▸ hlt⟩
  · rintro ⟨r, hr, hlt⟩
    exact ⟨_, r, rfl, hr, hlt⟩

namespace Rule

/-- The expression that looks a path up. -/
def lookupNode (path : String) : Value := .object [("var", .string path)]

/-- Whether looking a path up gives `null`. -/
def givesNull (context : Value) (path : String) : Bool :=
  match evaluate (lookupNode path) context with
  | .ok outcome => outcome.result.isNull
  | .error _ => false

/-! ## Looking paths up -/

/-- **A lookup gives what is at the path**, and `null` where there is nothing. -/
theorem evaluate_lookupNode (context : Value) (path : String) :
    ∃ trace, evaluate (lookupNode path) context =
      .ok ⟨(context.resolve path).getD .null, trace⟩ := by
  have hrun : (lookupNode path).run ⟨context, rootPath⟩ = Operator.var.runNode
      (Value.string path).asArguments ⟨context, rootPath⟩ :=
    Operator.run_node .var (.string path) _
  have htarget : varTarget (Value.string path).asArguments = pure (path, none) := rfl
  rw [← Value.verdict_eq_ok_iff, ← Value.verdict_run _ _ rootPath, hrun, Operator.runNode,
    Operator.apply, var, htarget, Recorded.pure_bind]
  rcases hfound : context.resolve path with _ | found
  · simp only [hfound]
    rfl
  · simp only [hfound]
    rfl

/-- **A path is missing** exactly if a lookup gives `null` there. -/
theorem givesNull_eq (context : Value) (path : String) :
    givesNull context path = !context.hasAt path := by
  obtain ⟨trace, hlookup⟩ := evaluate_lookupNode context path
  rw [givesNull, hlookup, Value.hasAt]
  rcases context.resolve path with _ | found
  · rfl
  · exact (Bool.not_not _).symm

/-! ## Sorting paths -/

/-- **Paths are sorted** by whether a lookup gives `null`, in order and with repeats. -/
theorem presence_strings (operator : Operator) (context : Value) (keys : List String) :
    presence operator context (keys.map .string) =
      pure (keys.countP (!givesNull context ·), (keys.filter (givesNull context)).map .string) := by
  induction keys with
  | nil => rfl
  | cons key rest ih =>
    rw [List.map_cons, presence, asWrittenString_of_text rfl, Recorded.pure_bind, ih,
      Recorded.pure_bind, List.countP_cons, List.filter_cons, givesNull_eq]
    cases context.hasAt key <;> rfl

/-- A key that is not a text is an error, wherever it stands. -/
theorem presence_of_not_string (operator : Operator) (context : Value) {items : List Value}
    (h : ∃ item ∈ items, item.string? = none) :
    presence operator context items = .error (.invalidArguments operator (.notString "key")) := by
  induction items with
  | nil =>
    obtain ⟨item, hmem, -⟩ := h
    exact absurd hmem List.not_mem_nil
  | cons first rest ih =>
    rcases hfirst : first.string? with _ | key
    · rw [presence, asWrittenString_of_none hfirst, Recorded.fail_bind]
      rfl
    · have hrest : ∃ item ∈ rest, item.string? = none := by
        obtain ⟨item, hmem, hitem⟩ := h
        obtain rfl | hmem := List.mem_cons.mp hmem
        · exact absurd (hitem.symm.trans hfirst) (Option.some_ne_none key).symm
        · exact ⟨item, hmem, hitem⟩
      rw [presence, asWrittenString_of_text hfirst, Recorded.pure_bind]
      exact Recorded.bind_of_error (ih hrest)

/-! ## The two operators -/

section Operators

variable {c m : Value} {x : Float} {items : List Value} {count : ℕ} {absent : List Value}

theorem missing_array (items : List Value) (place : Place) :
    missing (Value.array items).asArguments place =
      presence .missing place.context items >>= fun sorted =>
        pure ⟨.array sorted.2,
          .object [("keys", .array items), ("missing", .array sorted.2)]⟩ := by
  rw [missing, Value.asList_array, Recorded.pure_bind, map_written_terms]

theorem verdict_missing (h : presence .missing c items = pure (count, absent)) :
    (Operator.missing.node items).verdict c = .ok (.array absent) := by
  rw [Value.verdict_node, Operator.apply, missing_array, h, Recorded.pure_bind]
  rfl

theorem verdict_missingSome (hm : m.verdict c = .ok (.number x))
    (h : presence .missingSome c items = pure (count, absent)) :
    (Operator.missingSome.node [m, .array items]).verdict c =
      .ok (if Binary64.ofInt count < x then .array absent else .array []) := by
  have hnumber : asNumber .missingSome (.number x) = pure x := rfl
  have hitems : Recorded.ofOption (.invalidArguments .missingSome .notArray)
      (Value.array items).items? = pure items := rfl
  rw [Value.verdict_node, Operator.apply, missingSome, Value.asPair_array, Recorded.pure_bind]
  simp only [Recorded.verdict_bind, Place.child, Value.asTerm, Value.verdict_run, hm, ok_bind,
    hnumber, hitems, h, Recorded.verdict_pure, map_ok]

theorem evaluate_missing_error {err : EvalError} (h : presence .missing c items = .error err) :
    evaluate (Operator.missing.node items) c = .error err := by
  refine evaluate_error_iff.mpr (Operator.run_node_of_error ?_)
  rw [Operator.apply, missing_array]
  exact Recorded.bind_of_error h

theorem evaluate_missingSome_error {err : EvalError} (hm : m.verdict c = .ok (.number x))
    (h : presence .missingSome c items = .error err) :
    evaluate (Operator.missingSome.node [m, .array items]) c = .error err := by
  obtain ⟨steps, hrun⟩ := Value.exists_run_of_verdict hm
    (Place.child ⟨c, rootPath⟩ .threshold).path
  refine evaluate_error_iff.mpr (Operator.run_node_of_error ?_)
  rw [Operator.apply, missingSome, Value.asPair_array, Recorded.pure_bind]
  refine Recorded.bind_of_ok_error hrun (Recorded.bind_of_ok_error rfl ?_)
  exact Recorded.bind_of_ok_error rfl (Recorded.bind_of_error h)

end Operators

end Rule

open Rule

/-- **What is missing is what a lookup finds to be null.**  In every context every lookup succeeds.

`missing` gives the listed paths at which a lookup gives `null`, in order and with repeats.
`missing_some`, with a threshold that comes to a number, gives those paths if the listed paths at
which a lookup gives something else are fewer than the threshold, and no path otherwise; as lists of
fewer than `2 ^ 53` paths go, they are fewer if their count is less than the number that the
threshold is, and never if it is no number.

If any listed key is not a text, both operators fail. -/
theorem missing_agrees_with_lookups (c : Value) :
    (∀ path, ∃ v trace, evaluate (lookupNode path) c = .ok ⟨v, trace⟩) ∧
    (∀ keys : List String,
      (∃ trace, evaluate (Operator.missing.node (keys.map .string)) c =
        .ok ⟨.array ((keys.filter (givesNull c)).map .string), trace⟩) ∧
      ∀ (m : Value) (x : Float) (steps : List TraceStep),
        evaluate m c = .ok ⟨.number x, steps⟩ →
        (∃ trace, evaluate (Operator.missingSome.node [m, .array (keys.map .string)]) c =
          .ok ⟨if Binary64.ofInt (keys.countP (!givesNull c ·)) < x then
              .array ((keys.filter (givesNull c)).map .string)
            else .array [], trace⟩) ∧
        (keys.countP (!givesNull c ·) < 2 ^ 53 →
          (Binary64.ofInt (keys.countP (!givesNull c ·)) < x ↔
            ∃ r, Binary64.value? x = some r ∧
              ((keys.countP (!givesNull c ·) : ℝ) : EReal) < r))) ∧
    ∀ items : List Value, (∃ item ∈ items, ∀ text, item ≠ .string text) →
      evaluate (Operator.missing.node items) c =
        .error (.invalidArguments .missing (.notString "key")) ∧
      ∀ (m : Value) (x : Float) (steps : List TraceStep),
        evaluate m c = .ok ⟨.number x, steps⟩ →
        evaluate (Operator.missingSome.node [m, .array items]) c =
          .error (.invalidArguments .missingSome (.notString "key")) := by
  refine ⟨fun path => ?_, fun keys => ⟨?_, fun m x steps hm => ⟨?_, ?_⟩⟩, fun items hitems => ?_⟩
  · obtain ⟨trace, hlookup⟩ := evaluate_lookupNode c path
    exact ⟨_, trace, hlookup⟩
  · exact Value.verdict_eq_ok_iff.mp (verdict_missing (presence_strings .missing c keys))
  · have hnumber : m.verdict c = .ok (.number x) := Value.verdict_eq_ok_iff.mpr ⟨steps, hm⟩
    exact Value.verdict_eq_ok_iff.mp
      (verdict_missingSome hnumber (presence_strings .missingSome c keys))
  · exact fun hcount => Binary64.ofInt_lt_iff hcount
  · have hstring : ∃ item ∈ items, item.string? = none := by
      obtain ⟨item, hmem, hitem⟩ := hitems
      refine ⟨item, hmem, Option.eq_none_iff_forall_ne_some.mpr fun text htext => hitem text ?_⟩
      exact eq_of_string? htext htext
    refine ⟨evaluate_missing_error (presence_of_not_string .missing c hstring),
      fun m x steps hm => ?_⟩
    have hnumber : m.verdict c = .ok (.number x) := Value.verdict_eq_ok_iff.mpr ⟨steps, hm⟩
    exact evaluate_missingSome_error hnumber (presence_of_not_string .missingSome c hstring)

/-- Two of five paths hold something, the empty one among them: that is fewer than two and a half,
and not fewer than no number. -/
theorem missing_agrees_with_lookups_fraction :
    let half : Float := .ofBits 0x4004000000000000
    let c : Value := .object [("a", .null), ("b", .bool false), ("min", .number half)]
    let keys := ["b", "a", "", "gone", "a"]
    let m : Value := .object [("var", .string "min")]
    (∃ trace, evaluate (Operator.missing.node (keys.map .string)) c =
      .ok ⟨.array (["a", "gone", "a"].map .string), trace⟩) ∧
    (∃ trace, evaluate (Operator.missingSome.node [m, .array (keys.map .string)]) c =
      .ok ⟨.array (["a", "gone", "a"].map .string), trace⟩) ∧
    (∃ trace, evaluate (Operator.missingSome.node
      [.number Float.nan, .array (keys.map .string)]) c = .ok ⟨.array [], trace⟩) ∧
    (∃ r, Binary64.value? half = some r ∧ (2 : EReal) < r) ∧
    ∃ err, evaluate (Operator.missing.node [.string "a", .null]) c = .error err := by
  intro half c keys m
  obtain ⟨-, hkeys, hitems⟩ := missing_agrees_with_lookups c
  obtain ⟨hmissing, hsome⟩ := hkeys keys
  obtain ⟨hhalf, hexact⟩ := hsome m half _ rfl
  obtain ⟨hnan, -⟩ := hsome (.number Float.nan) Float.nan _ rfl
  have hcount : keys.countP (!givesNull c ·) = 2 := rfl
  have hfilter : keys.filter (givesNull c) = ["a", "gone", "a"] := rfl
  have hfewer : Binary64.ofInt (2 : ℕ) < half := by decide +kernel
  have hnot : ¬ Binary64.ofInt (2 : ℕ) < Float.nan := by decide +kernel
  rw [hcount] at hhalf hexact hnan
  rw [if_pos hfewer, hfilter] at hhalf
  rw [if_neg hnot] at hnan
  rw [hfilter] at hmissing
  refine ⟨hmissing, hhalf, hnan, ?_, _, (hitems [.string "a", .null] ⟨.null, ?_, nofun⟩).1⟩
  · exact_mod_cast (hexact (by decide)).mp hfewer
  · exact List.mem_cons_of_mem _ List.mem_cons_self

end DecisionRules
