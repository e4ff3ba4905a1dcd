import DecisionRules.Proofs.Rule.Expression

/-!
# Proofs/Rule/TracePath — every step of a trace stands where its path says

A trace is charted by an expression (`Charted`) if each of its steps, nested ones included, has the
path of a route, that route leads to a node with the operator of the step, and no two steps have the
same route.  Scripts keep this up because no move is made twice: what comes from one sub-expression
is set apart from all the rest by its first move (`Charted.append`).

Routes lead into the expression and nowhere else, so no step is about anything that came out of the
context.
-/

namespace DecisionRules

open TraceStep

/-- A route leads to a node with this key. -/
def Value.HasNode (e : Value) (route : Route) (name : String) : Prop :=
  ∃ argument, e.follow? route = some (.object [(name, argument)])

/-- The steps of a forest, nested ones included, stand below a path on routes of their own.
`stands` says on which routes a step with which operator may stand. -/
structure Charted (stands : Route → String → Prop) (path : String) (steps : List TraceStep) :
    Prop where
  /-- Each step has the path of a route on which it may stand. -/
  located : ∀ s ∈ listAll steps, ∃ route, s.path = path ++ route.text ∧ stands route s.operator
  /-- No two steps have the same path. -/
  distinct : ((listAll steps).map TraceStep.path).Nodup
  /-- The path of a child goes on from that of its parent. -/
  nested : ∀ s ∈ listAll steps, ∀ t ∈ s.children, ∃ rest, t.path = s.path ++ "." ++ rest

namespace Charted

variable {stands more : Route → String → Prop} {path : String}

theorem nil : Charted stands path [] :=
  ⟨fun _ h => absurd h List.not_mem_nil, List.nodup_nil, fun _ h => absurd h List.not_mem_nil⟩

theorem mono {steps : List TraceStep} (h : Charted stands path steps)
    (hle : ∀ route name, stands route name → more route name) : Charted more path steps where
  located s hs := by
    obtain ⟨route, hpath, hstands⟩ := h.located s hs
    exact ⟨route, hpath, hle _ _ hstands⟩
  distinct := h.distinct
  nested := h.nested

/-- **Forests on different routes** may stand side by side. -/
theorem append {before after : List TraceStep} (hbefore : Charted stands path before)
    (hafter : Charted more path after)
    (hdisjoint : ∀ ρ σ name name', stands ρ name → more σ name' → ρ ≠ σ) :
    Charted (fun route name => stands route name ∨ more route name) path (before ++ after) where
  located s hs := by
    rw [listAll_append, List.mem_append] at hs
    rcases hs with hs | hs
    · obtain ⟨route, hpath, hstands⟩ := hbefore.located s hs
      exact ⟨route, hpath, .inl hstands⟩
    · obtain ⟨route, hpath, hstands⟩ := hafter.located s hs
      exact ⟨route, hpath, .inr hstands⟩
  distinct := by
    rw [listAll_append, List.map_append, List.nodup_append]
    refine ⟨hbefore.distinct, hafter.distinct, fun p hp q hq hpq => ?_⟩
    obtain ⟨s, hs, rfl⟩ := List.mem_map.mp hp
    obtain ⟨t, ht, rfl⟩ := List.mem_map.mp hq
    obtain ⟨ρ, hρ, hstands⟩ := hbefore.located s hs
    obtain ⟨σ, hσ, hmore⟩ := hafter.located t ht
    rw [hρ, hσ, String.append_right_inj] at hpq
    exact hdisjoint ρ σ _ _ hstands hmore (Route.text_injective hpq)
  nested s hs := by
    rw [listAll_append, List.mem_append] at hs
    rcases hs with hs | hs
    · exact hbefore.nested s hs
    · exact hafter.nested s hs

/-- What stands below a move stands on routes that start with it. -/
theorem inward {m : Move} {steps : List TraceStep} (h : Charted stands (path ++ m.text) steps) :
    Charted (fun route name => ∃ rest, route = m :: rest ∧ stands rest name) path steps where
  located s hs := by
    obtain ⟨rest, hpath, hstands⟩ := h.located s hs
    refine ⟨m :: rest, ?_, rest, rfl, hstands⟩
    rw [hpath, Route.text, String.append_assoc]
  distinct := h.distinct
  nested := h.nested

/-- **A step and what stands below it**: its children stand behind a role in its node. -/
theorem node {name : String} {result : Value} {arguments : Option Value}
    {children : List TraceStep} (h : Charted stands path children)
    (hrole : ∀ route name, stands route name → ∃ role rest, route = .part role :: rest) :
    Charted (fun route name' => (route = [] ∧ name' = name) ∨ stands route name') path
      [⟨path, name, result, arguments, children⟩] where
  located s hs := by
    rw [listAll, listAll, List.append_nil, listing_eq] at hs
    rcases List.mem_cons.mp hs with rfl | hs
    · exact ⟨[], String.append_empty.symm, .inl ⟨rfl, rfl⟩⟩
    · obtain ⟨route, hpath, hstands⟩ := h.located s hs
      exact ⟨route, hpath, .inr hstands⟩
  distinct := by
    rw [listAll, listAll, List.append_nil, listing_eq, List.map_cons, List.nodup_cons]
    refine ⟨fun hmem => ?_, h.distinct⟩
    obtain ⟨s, hs, hpath⟩ := List.mem_map.mp hmem
    obtain ⟨route, hroute, hstands⟩ := h.located s hs
    obtain ⟨role, rest, rfl⟩ := hrole _ _ hstands
    have htext : path ++ Route.text (.part role :: rest) = path ++ Route.text [] :=
      (hroute.symm.trans hpath).trans String.append_empty.symm
    rw [String.append_right_inj] at htext
    exact absurd (Route.text_injective htext) (by simp)
  nested s hs t ht := by
    rw [listAll, listAll, List.append_nil, listing_eq] at hs
    rcases List.mem_cons.mp hs with rfl | hs
    · obtain ⟨route, hroute, hstands⟩ := h.located t (mem_listAll ht)
      obtain ⟨role, rest, rfl⟩ := hrole _ _ hstands
      refine ⟨role.text ++ Route.text rest, ?_⟩
      rw [hroute, Route.text, Move.text]
      simp only [String.append_assoc]
    · exact h.nested s hs t ht

end Charted

/-! ## Scripts and expressions -/

/-- **A script charts its trace** by the moves it makes, if the sub-expressions chart theirs. -/
theorem Script.charted {α : Type} {sub? : Move → Option Value} {left : Move → Prop}
    {x : String → Recorded α} (h : Script sub? left x)
    (hinner : ∀ m inner, sub? m = some inner → ∀ place v steps,
      inner.run place = .ok (v, steps) → Charted inner.HasNode place.path steps)
    {path : String} {a : α} {steps : List TraceStep} (hok : x path = .ok (a, steps)) :
    Charted (fun route name => ∃ m rest inner, route = m :: rest ∧ left m ∧ sub? m = some inner ∧
      inner.HasNode rest name) path steps := by
  induction h generalizing steps with
  | gives a =>
    cases hok
    exact .nil
  | faults own => cases hok
  | @runs left m e context next free leads _ ih =>
    obtain ⟨v, before, after, hrun, hnext, rfl⟩ := Recorded.bind_eq_ok hok
    have hbefore := hinner m e leads _ _ _ hrun
    rw [Place.path_move] at hbefore
    refine (hbefore.inward.append (ih v hnext) fun ρ σ _ _ hρ hσ => ?_).mono fun route name => ?_
    · obtain ⟨rest, rfl, -⟩ := hρ
      obtain ⟨m', rest', inner, rfl, ⟨-, hne⟩, -⟩ := hσ
      exact fun heq => hne (List.cons.inj heq).1.symm
    · rintro (⟨rest, rfl, hnode⟩ | ⟨m', rest, inner, rfl, ⟨hleft, -⟩, hsub, hnode⟩)
      · exact ⟨m, rest, e, rfl, free, leads, hnode⟩
      · exact ⟨m', rest, inner, rfl, hleft, hsub, hnode⟩

theorem Value.hasNode_cons {e inner : Value} {m : Move} {rest : Route} {name : String}
    (hsub : e.sub? m = some inner) (h : inner.HasNode rest name) : e.HasNode (m :: rest) name := by
  obtain ⟨argument, hfollow⟩ := h
  refine ⟨argument, ?_⟩
  rw [Value.follow?, hsub]
  exact hfollow

/-- The moves into a node are to its arguments. -/
theorem Value.eq_part_of_sub? {name : String} {argument inner : Value} {m : Move}
    (h : (Value.object [(name, argument)]).sub? m = some inner) : ∃ role, m = .part role := by
  rcases m with i | role
  · cases h
  · exact ⟨role, rfl⟩

/-- **An expression charts its trace.** -/
theorem Value.charted_run (e : Value) : ∀ place v steps,
    e.run place = .ok (v, steps) → Charted e.HasNode place.path steps := by
  induction e using Value.moveInduction with
  | h e ih =>
    intro place v steps hok
    cases e using Value.expressionCases with
    | literal e hliteral =>
      rw [Value.run_literal hliteral] at hok
      cases hok
      exact .nil
    | array items =>
      refine ((Value.script_run_array items place.context).charted ih hok).mono fun route name => ?_
      rintro ⟨m, rest, inner, rfl, -, hsub, hnode⟩
      exact Value.hasNode_cons hsub hnode
    | node name argument =>
      rw [Value.run_node] at hok
      obtain ⟨operator, payload, children, hname, happly, rfl⟩ := runNamed_eq_ok hok
      have hscript := Operator.script_apply (Rule.inNode hname argument) place.context
      refine ((hscript.charted ih happly).node fun route _ hstands => ?_).mono fun route _ => ?_
      · obtain ⟨m, rest, inner, rfl, -, hsub, -⟩ := hstands
        obtain ⟨role, rfl⟩ := Value.eq_part_of_sub? hsub
        exact ⟨role, rest, rfl⟩
      · rintro (⟨rfl, rfl⟩ | ⟨m, rest, inner, rfl, -, hsub, hnode⟩)
        · exact ⟨argument, rfl⟩
        · exact Value.hasNode_cons hsub hnode
    | malformed entries hlength =>
      rw [Value.run_malformed hlength] at hok
      cases hok

theorem Value.locate?_text (e : Value) (route : Route) :
    e.locate? (rootPath ++ route.text) = e.follow? route := by
  rw [Value.locate?, Route.ofText?_text]
  rfl

/-- **Paths of a trace are unique and lead to what they name.**  No two steps have the same path,
nested ones included; a child's path goes on from its parent's after a point; and the path of a
step, followed into the expression, leads to an object whose only key is the operator of the
step. -/
theorem nodup_paths_and_locate?_of_evaluate (e c : Value) (outcome : Evaluation)
    (h : evaluate e c = .ok outcome) :
    ((listAll outcome.trace).map TraceStep.path).Nodup ∧
      ∀ s ∈ listAll outcome.trace,
        (∀ t ∈ s.children, ∃ rest, t.path = s.path ++ "." ++ rest) ∧
          ∃ argument, e.locate? s.path = some (.object [(s.operator, argument)]) := by
  have hrun : e.run ⟨c, rootPath⟩ = .ok (outcome.result, outcome.trace) := by
    unfold evaluate at h
    split at h
    · cases h
    · rename_i hrun
      cases h
      exact hrun
  have hcharted := e.charted_run _ _ _ hrun
  refine ⟨hcharted.distinct, fun s hs => ⟨hcharted.nested s hs, ?_⟩⟩
  obtain ⟨route, hpath, argument, hfollow⟩ := hcharted.located s hs
  refine ⟨argument, ?_⟩
  rw [hpath, Value.locate?_text]
  exact hfollow

/-- A predicate that runs on two elements, inside an array: six steps, on six paths. -/
theorem nodup_paths_and_locate?_of_evaluate_predicate :
    let e : Value := .array [.object [("bl_any", .array [.object [("var", .string "xs")],
      .object [("!", .array [.object [("var", .string "item")]])]])]]
    let c : Value := .object [("xs", .array [.bool true, .object [("var", .null), ("!", .null)]])]
    ∃ outcome, evaluate e c = .ok outcome ∧ (listAll outcome.trace).length = 6 ∧
      ((listAll outcome.trace).map TraceStep.path).Nodup ∧
      ∀ s ∈ listAll outcome.trace,
        (∀ t ∈ s.children, ∃ rest, t.path = s.path ++ "." ++ rest) ∧
          ∃ argument, e.locate? s.path = some (.object [(s.operator, argument)]) := by
  intro e c
  obtain ⟨outcome, h, hlength⟩ :
      ∃ outcome, evaluate e c = .ok outcome ∧ (listAll outcome.trace).length = 6 := ⟨_, rfl, rfl⟩
  exact ⟨outcome, h, hlength, nodup_paths_and_locate?_of_evaluate e c outcome h⟩

end DecisionRules
