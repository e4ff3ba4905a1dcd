import Mathlib.Data.List.Forall2
import DecisionRules.Proofs.Rule.Expression

/-!
# Proofs/Rule/Outermost — a result is the expression with its outermost nodes filled in

The outermost nodes of an expression are the objects that are reached through arrays only
(`Value.outermost`).  Nothing else in it takes a step of its own at the top of the trace, so the
trace goes along with the list of them, one step for each and in the same order, and the result is
the expression with the results of these steps in their places (`Value.fill`).

The induction follows the arrays.  It carries the values that have been filled in as a function of
the positions; that they can be found in the trace again is because a path tells the positions.
-/

namespace DecisionRules

/-- A node that stands in arrays only, with the positions that lead to it from the outside in. -/
structure OuterNode where
  positions : List Nat
  node : Value

namespace OuterNode

/-- The moves that lead to the node. -/
def route (n : OuterNode) : Route := n.positions.map .item

/-- The path of the node in an evaluation of the whole expression. -/
def path (n : OuterNode) : String := rootPath ++ n.route.text

/-- The node, seen from an array whose item at a position it stands in. -/
def inside (i : Nat) (n : OuterNode) : OuterNode := ⟨i :: n.positions, n.node⟩

@[simp] theorem route_inside (i : Nat) (n : OuterNode) :
    (n.inside i).route = .item i :: n.route := rfl

/-- A path tells the positions. -/
theorem positions_eq_of_path_eq {n m : OuterNode} (h : n.path = m.path) :
    n.positions = m.positions := by
  rw [path, path, String.append_right_inj] at h
  exact List.map_injective_iff.mpr Value.item_inj (Route.text_injective h)

end OuterNode

namespace Value

/-- An object, well-built or not. -/
def IsObject : Value → Prop
  | .object _ => True
  | _ => False

mutual

/-- The outermost nodes of an expression, in document order. -/
def outermost : Value → List OuterNode
  | .object entries => [⟨[], .object entries⟩]
  | .array items => outermostOfItems items 0
  | _ => []
  termination_by structural e => e

/-- The outermost nodes of the items of an array, from position `i` on. -/
def outermostOfItems : List Value → Nat → List OuterNode
  | [], _ => []
  | e :: rest, i => e.outermost.map (OuterNode.inside i) ++ outermostOfItems rest (i + 1)
  termination_by structural items => items

end

mutual

/-- An expression with its outermost nodes replaced by the values at their positions. -/
def fill : Value → (List Nat → Value) → Value
  | .object _, values => values []
  | .array items, values => .array (fillItems items 0 values)
  | literal, _ => literal
  termination_by structural e => e

/-- The items of an array, from position `i` on, with their outermost nodes replaced. -/
def fillItems : List Value → Nat → (List Nat → Value) → List Value
  | [], _, _ => []
  | e :: rest, i, values =>
    e.fill (fun inner => values (i :: inner)) :: fillItems rest (i + 1) values
  termination_by structural items => items

end

/-- A value stands somewhere in another: it is the other, or it stands in an item or under a key. -/
inductive StandsIn (part : Value) : Value → Prop
  | whole : StandsIn part part
  | item {e : Value} {items : List Value} (mem : e ∈ items) (inner : StandsIn part e) :
    StandsIn part (.array items)
  | entry {key : String} {e : Value} {entries : List (String × Value)} (mem : (key, e) ∈ entries)
    (inner : StandsIn part e) : StandsIn part (.object entries)

/-! ## Which nodes these are -/

theorem outermost_literal {e : Value} (h : e.IsLiteral) : e.outermost = [] := by
  rcases e with _ | _ | _ | _ | _ | _
  case array => exact h.elim
  case object => exact h.elim
  all_goals rfl

theorem fill_literal {e : Value} (h : e.IsLiteral) (values : List Nat → Value) :
    e.fill values = e := by
  rcases e with _ | _ | _ | _ | _ | _
  case array => exact h.elim
  case object => exact h.elim
  all_goals rfl

/-- The first position of an outermost node of an array is that of an item. -/
theorem exists_head_of_mem_outermostOfItems {n : OuterNode} : ∀ {items : List Value} {i : Nat},
    n ∈ outermostOfItems items i → ∃ j inner, i ≤ j ∧ n.positions = j :: inner
  | e :: rest, i, h => by
    rcases List.mem_append.mp h with h | h
    · obtain ⟨m, -, rfl⟩ := List.mem_map.mp h
      exact ⟨i, m.positions, Nat.le_refl i, rfl⟩
    · obtain ⟨j, inner, hj, hn⟩ := exists_head_of_mem_outermostOfItems h
      exact ⟨j, inner, by omega, hn⟩

theorem cons_mem_outermostOfItems_iff {j : Nat} {positions : List Nat} {node : Value} :
    ∀ {items : List Value} {i : Nat}, ⟨j :: positions, node⟩ ∈ outermostOfItems items i ↔
      ∃ k e, items[k]? = some e ∧ i + k = j ∧ ⟨positions, node⟩ ∈ e.outermost
  | [], i => by simp [outermostOfItems]
  | e :: rest, i => by
    rw [outermostOfItems, List.mem_append, cons_mem_outermostOfItems_iff, List.mem_map]
    constructor
    · rintro (⟨n, hn, heq⟩ | ⟨k, inner, hk, rfl, hmem⟩)
      · cases heq
        exact ⟨0, e, rfl, rfl, hn⟩
      · exact ⟨k + 1, inner, hk, by omega, hmem⟩
    · rintro ⟨_ | k, inner, hk, rfl, hmem⟩
      · cases hk
        exact .inl ⟨_, hmem, rfl⟩
      · exact .inr ⟨k, inner, hk, by omega, hmem⟩

theorem sub?_item_iff {e inner : Value} {i : Nat} :
    e.sub? (.item i) = some inner ↔ ∃ items, e = .array items ∧ items[i]? = some inner := by
  cases e with
  | array items => simp [sub?]
  | object entries => rcases entries with _ | ⟨first, _ | ⟨second, rest⟩⟩ <;> simp [sub?]
  | _ => simp [sub?]

theorem nil_mem_outermost_iff {e node : Value} :
    ⟨[], node⟩ ∈ e.outermost ↔ e = node ∧ node.IsObject := by
  cases e with
  | object entries =>
    simp only [outermost, List.mem_singleton, OuterNode.mk.injEq, true_and]
    exact ⟨fun h => ⟨h.symm, h ▸ trivial⟩, fun h => h.1.symm⟩
  | array items =>
    constructor
    · intro h
      obtain ⟨_, _, -, hnil⟩ := exists_head_of_mem_outermostOfItems h
      cases hnil
    · rintro ⟨rfl, h⟩
      cases h
  | _ =>
    refine ⟨fun h => absurd h List.not_mem_nil, ?_⟩
    rintro ⟨rfl, h⟩
    cases h

theorem cons_mem_outermost_iff {e node : Value} {i : Nat} {positions : List Nat} :
    ⟨i :: positions, node⟩ ∈ e.outermost ↔
      ∃ inner, e.sub? (.item i) = some inner ∧ ⟨positions, node⟩ ∈ inner.outermost := by
  simp only [sub?_item_iff]
  cases e with
  | array items => simp [outermost, cons_mem_outermostOfItems_iff]
  | _ => simp [outermost]

/-- **The outermost nodes** are the objects that moves to items lead to. -/
theorem mem_outermost_iff {n : OuterNode} {e : Value} :
    n ∈ e.outermost ↔ e.follow? n.route = some n.node ∧ n.node.IsObject := by
  rcases n with ⟨positions, node⟩
  induction positions generalizing e with
  | nil => exact nil_mem_outermost_iff.trans (and_congr_left' Option.some_inj.symm)
  | cons i positions ih =>
    simp only [cons_mem_outermost_iff, ih, OuterNode.route, List.map_cons, follow?,
      Option.bind_eq_some_iff]
    constructor
    · rintro ⟨inner, h, hfollow, hobject⟩
      exact ⟨⟨inner, h, hfollow⟩, hobject⟩
    · rintro ⟨⟨inner, h, hfollow⟩, hobject⟩
      exact ⟨inner, h, hfollow, hobject⟩

mutual

/-- **The outermost nodes stand in document order**, which is the order of their positions. -/
theorem pairwise_outermost (e : Value) :
    e.outermost.Pairwise fun n m => n.positions < m.positions := by
  cases e with
  | object entries => exact List.pairwise_singleton _ _
  | array items => exact pairwise_outermostOfItems items 0
  | _ => exact .nil

theorem pairwise_outermostOfItems (items : List Value) (i : Nat) :
    (outermostOfItems items i).Pairwise fun n m => n.positions < m.positions := by
  cases items with
  | nil => exact .nil
  | cons e rest =>
    rw [outermostOfItems, List.pairwise_append, List.pairwise_map]
    refine ⟨(pairwise_outermost e).imp fun h => List.cons_lt_cons_iff.mpr (.inr ⟨rfl, h⟩),
      pairwise_outermostOfItems rest (i + 1), fun n hn m hm => ?_⟩
    obtain ⟨n, -, rfl⟩ := List.mem_map.mp hn
    obtain ⟨j, inner, hj, hm⟩ := exists_head_of_mem_outermostOfItems hm
    rw [hm]
    exact List.cons_lt_cons_iff.mpr (.inl hj)

end

/-! ## Filling in -/

theorem outermost_eq_nil_of_mem {e : Value} : ∀ {items : List Value} {i : Nat},
    outermostOfItems items i = [] → e ∈ items → e.outermost = []
  | first :: rest, i, h, he => by
    obtain ⟨hfirst, hrest⟩ := List.append_eq_nil_iff.mp h
    rcases List.mem_cons.mp he with rfl | he
    · exact List.map_eq_nil_iff.mp hfirst
    · exact outermost_eq_nil_of_mem hrest he

theorem outermost_ne_nil_of_standsIn {e : Value} {entries : List (String × Value)}
    (h : StandsIn (.object entries) e) : e.outermost ≠ [] := by
  induction h with
  | whole => exact List.cons_ne_nil _ _
  | item mem inner ih => exact fun hnil => ih (outermost_eq_nil_of_mem hnil mem)
  | entry mem inner ih => exact List.cons_ne_nil _ _

theorem standsIn_of_follow? {node : Value} : ∀ {positions : List Nat} {e : Value},
    e.follow? (positions.map .item) = some node → StandsIn node e
  | [], e, h => by
    cases h
    exact .whole
  | i :: positions, e, h => by
    obtain ⟨inner, hsub, hfollow⟩ := Option.bind_eq_some_iff.mp h
    obtain ⟨items, rfl, hitem⟩ := sub?_item_iff.mp hsub
    exact .item (List.mem_of_getElem? hitem) (standsIn_of_follow? hfollow)

/-- **An expression has an outermost node if any object stands in it.** -/
theorem outermost_eq_nil_iff {e : Value} :
    e.outermost = [] ↔ ∀ entries, ¬ StandsIn (.object entries) e := by
  refine ⟨fun h entries hstands => outermost_ne_nil_of_standsIn hstands h, fun h => ?_⟩
  refine List.eq_nil_iff_forall_not_mem.mpr fun n hn => ?_
  obtain ⟨hfollow, hobject⟩ := mem_outermost_iff.mp hn
  rcases hnode : n.node with _ | _ | _ | _ | _ | entries <;> rw [hnode] at hobject
  case object => exact h entries (hnode ▸ standsIn_of_follow? hfollow)
  all_goals exact hobject

mutual

/-- **What is filled in** is looked up for the outermost nodes and nowhere else. -/
theorem fill_congr (e : Value) {f g : List Nat → Value}
    (h : ∀ n ∈ e.outermost, f n.positions = g n.positions) : e.fill f = e.fill g := by
  cases e with
  | object entries => exact h ⟨[], .object entries⟩ List.mem_cons_self
  | array items => exact congrArg Value.array (fillItems_congr items 0 h)
  | _ => rfl

theorem fillItems_congr (items : List Value) (i : Nat) {f g : List Nat → Value}
    (h : ∀ n ∈ outermostOfItems items i, f n.positions = g n.positions) :
    fillItems items i f = fillItems items i g := by
  cases items with
  | nil => rfl
  | cons e rest =>
    have hfirst : e.fill (fun inner => f (i :: inner)) = e.fill fun inner => g (i :: inner) :=
      fill_congr e fun n hn => h (n.inside i) (List.mem_append_left _ (List.mem_map_of_mem hn))
    have hrest := fillItems_congr rest (i + 1) fun n hn => h n (List.mem_append_right _ hn)
    rw [fillItems, fillItems, hfirst, hrest]

end

mutual

/-- An expression without outermost nodes has nothing to fill in. -/
theorem fill_of_outermost_eq_nil (e : Value) (values : List Nat → Value)
    (h : e.outermost = []) : e.fill values = e := by
  cases e with
  | object entries => cases h
  | array items => exact congrArg Value.array (fillItems_of_outermost_eq_nil items 0 values h)
  | _ => rfl

theorem fillItems_of_outermost_eq_nil (items : List Value) (i : Nat) (values : List Nat → Value)
    (h : outermostOfItems items i = []) : fillItems items i values = items := by
  cases items with
  | nil => rfl
  | cons e rest =>
    obtain ⟨hfirst, hrest⟩ := List.append_eq_nil_iff.mp h
    rw [fillItems, fillItems_of_outermost_eq_nil rest (i + 1) values hrest,
      fill_of_outermost_eq_nil e _ (List.map_eq_nil_iff.mp hfirst)]

end

end Value

/-! ## Evaluation -/

/-- A step is that of an outermost node of the expression at a place: it has the path and the
operator of the node, it is the one step that the node takes there, and `values` has its result at
the positions of the node. -/
structure TraceStep.IsOf (place : Place) (values : List Nat → Value) (step : TraceStep)
    (n : OuterNode) : Prop where
  path : step.path = place.path ++ n.route.text
  operator : ∃ argument, n.node = .object [(step.operator, argument)]
  run : n.node.run ⟨place.context, step.path⟩ = .ok (step.result, [step])
  result : values n.positions = step.result

/-- Values for what stands in one item of an array, and values for everything else. -/
def beside (i : Nat) (inside others : List Nat → Value) (positions : List Nat) : Value :=
  if positions.head? = some i then inside positions.tail else others positions

namespace TraceStep.IsOf

variable {place : Place} {i : Nat} {step : TraceStep} {n : OuterNode} {f g : List Nat → Value}

theorem inside (g : List Nat → Value) (h : step.IsOf (place.item i) f n) :
    step.IsOf place (beside i f g) (n.inside i) where
  path := by
    rw [h.path, OuterNode.route_inside, Route.text, ← String.append_assoc]
    rfl
  operator := h.operator
  run := h.run
  result := (if_pos rfl).trans h.result

theorem congr (h : step.IsOf place g n) (hvalues : f n.positions = g n.positions) :
    step.IsOf place f n :=
  ⟨h.path, h.operator, h.run, hvalues.trans h.result⟩

end TraceStep.IsOf

namespace Value

/-- **What evaluating an expression gives** goes along with its outermost nodes. -/
def FillsIn (e : Value) : Prop := ∀ place v steps, e.run place = .ok (v, steps) →
  ∃ values, v = e.fill values ∧ List.Forall₂ (TraceStep.IsOf place values) steps e.outermost

theorem fillsIn_literal {e : Value} (h : e.IsLiteral) : e.FillsIn := by
  intro place v steps hrun
  rw [run_literal h] at hrun
  cases hrun
  refine ⟨fun _ => .null, (fill_literal h _).symm, ?_⟩
  rw [outermost_literal h]
  exact .nil

theorem fillsIn_node (name : String) (argument : Value) :
    (Value.object [(name, argument)]).FillsIn := by
  intro place v steps hrun
  obtain ⟨operator, payload, children, -, -, rfl⟩ :=
    runNamed_eq_ok (run_node name argument place ▸ hrun)
  refine ⟨fun _ => v, rfl, .cons ⟨?_, ⟨argument, rfl⟩, hrun, rfl⟩ .nil⟩
  exact String.append_empty.symm

theorem fillsIn_malformed {entries : List (String × Value)} (h : entries.length ≠ 1) :
    (Value.object entries).FillsIn := by
  intro place v steps hrun
  rw [run_malformed h] at hrun
  cases hrun

/-- The items of an array are filled in one after another. -/
theorem exists_of_runItems : ∀ (items : List Value) (i : Nat), (∀ e ∈ items, e.FillsIn) →
    ∀ place vs steps, runItems items i place = .ok (vs, steps) →
      ∃ values, vs = fillItems items i values ∧
        List.Forall₂ (TraceStep.IsOf place values) steps (outermostOfItems items i)
  | [], i, _, place, vs, steps, hrun => by
    cases hrun
    exact ⟨fun _ => .null, rfl, .nil⟩
  | e :: rest, i, h, place, vs, steps, hrun => by
    obtain ⟨he, hrest⟩ := List.forall_mem_cons.mp h
    obtain ⟨v, before, _, hfirst, hmore, rfl⟩ := Recorded.bind_eq_ok hrun
    obtain ⟨more, after, _, hitems, hpure, rfl⟩ := Recorded.bind_eq_ok hmore
    cases hpure
    obtain ⟨f, rfl, hbefore⟩ := he _ _ _ hfirst
    obtain ⟨g, rfl, hafter⟩ := exists_of_runItems rest (i + 1) hrest _ _ _ hitems
    -- What comes after stands at later positions, so it does not see the values for this item.
    have hlater : ∀ n ∈ outermostOfItems rest (i + 1), beside i f g n.positions = g n.positions :=
      fun n hn => by
        obtain ⟨j, inner, hj, hn⟩ := exists_head_of_mem_outermostOfItems hn
        rw [beside, hn, if_neg fun heq => ?_]
        have := Option.some.inj heq
        omega
    refine ⟨beside i f g, ?_, ?_⟩
    · have hthis : e.fill (fun inner => beside i f g (i :: inner)) = e.fill f :=
        fill_congr e fun n _ => if_pos rfl
      rw [fillItems, hthis, fillItems_congr rest (i + 1) hlater]
    · rw [List.append_nil, outermostOfItems]
      refine List.rel_append ?_ ?_
      · exact List.forall₂_map_right_iff.mpr (hbefore.imp fun _ _ hstep => hstep.inside g)
      · have hboth := (List.forall₂_and_left _ _).mpr ⟨hlater, hafter.flip⟩
        exact (hboth.imp fun _ _ hstep => hstep.2.congr hstep.1).flip

theorem fillsIn (e : Value) : e.FillsIn := by
  induction e using Value.moveInduction with
  | h e ih =>
    cases e using Value.expressionCases with
    | literal e hliteral => exact fillsIn_literal hliteral
    | array items =>
      intro place v steps hrun
      have hitems : ∀ e ∈ items, e.FillsIn := fun e he => by
        obtain ⟨i, hi⟩ := List.getElem?_of_mem he
        exact ih (.item i) e hi
      rw [run_array] at hrun
      obtain ⟨vs, before, after, hvalues, hpure, rfl⟩ := Recorded.bind_eq_ok hrun
      cases hpure
      obtain ⟨values, rfl, hsteps⟩ := exists_of_runItems items 0 hitems place vs before hvalues
      rw [List.append_nil]
      exact ⟨values, rfl, hsteps⟩
    | node name argument => exact fillsIn_node name argument
    | malformed entries hlength => exact fillsIn_malformed hlength

end Value

/-! ## What stands where -/

theorem exists_mem_of_forall₂ {α β : Type} {R : α → β → Prop} {as : List α} {bs : List β}
    (h : List.Forall₂ R as bs) : ∀ b ∈ bs, ∃ a ∈ as, R a b := by
  induction h with
  | nil => exact fun _ hb => absurd hb List.not_mem_nil
  | cons hab _ ih =>
    intro b hb
    rcases List.mem_cons.mp hb with rfl | hb
    · exact ⟨_, List.mem_cons_self, hab⟩
    · obtain ⟨a, ha, hr⟩ := ih b hb
      exact ⟨a, List.mem_cons_of_mem _ ha, hr⟩

/-- The result of the step that a trace has for the node at some positions, `null` if it has
none. -/
def resultAt (trace : List TraceStep) (positions : List Nat) : Value :=
  ((trace.find? fun step => step.path = rootPath ++ Route.text (positions.map .item)).map
    TraceStep.result).getD .null

/-- **A value that was filled in is found in the trace** by the path of the node. -/
theorem resultAt_eq {context : Value} {values : List Nat → Value} {trace : List TraceStep}
    {nodes : List OuterNode}
    (h : List.Forall₂ (TraceStep.IsOf ⟨context, rootPath⟩ values) trace nodes) :
    ∀ n ∈ nodes, resultAt trace n.positions = values n.positions := fun n hn => by
  obtain ⟨step, hmem, hstep⟩ := exists_mem_of_forall₂ h n hn
  obtain ⟨found, hfound⟩ : ∃ found, (trace.find? fun step => step.path = n.path) = some found :=
    Option.isSome_iff_exists.mp (List.find?_isSome.mpr ⟨step, hmem, decide_eq_true hstep.path⟩)
  have hpath : found.path = n.path := by simpa using List.find?_some hfound
  obtain ⟨m, -, hm⟩ := exists_mem_of_forall₂ h.flip found (List.mem_of_find?_eq_some hfound)
  have hpositions : m.positions = n.positions :=
    OuterNode.positions_eq_of_path_eq (hm.path.symm.trans hpath)
  have hresult : resultAt trace n.positions = found.result :=
    congrArg (fun step? : Option TraceStep => (step?.map TraceStep.result).getD .null) hfound
  rw [hresult, ← hpositions, hm.result]

/-- **A result is the expression with the results of its outermost nodes in their places.**  The
trace has one step for each outermost node, in document order: with the path that the positions of
the node make up, with its operator, and with what the node gives there by itself.  The result is
the expression with each of these nodes replaced by the result of its step, which is the one with
its path.

The outermost nodes are the objects that items of arrays, one in another, lead to, each listed once
and in the order of their positions.  So there are no steps if and only if no object stands anywhere
in the expression, and then the result is the expression itself. -/
theorem result_eq_fill_outermost (e c : Value) (outcome : Evaluation)
    (h : evaluate e c = .ok outcome) :
    List.Forall₂ (fun step n => step.path = n.path ∧
        (∃ argument, n.node = .object [(step.operator, argument)]) ∧
        n.node.run ⟨c, step.path⟩ = .ok (step.result, [step])) outcome.trace e.outermost ∧
      outcome.result = e.fill (resultAt outcome.trace) ∧
      (∀ n, n ∈ e.outermost ↔ e.follow? n.route = some n.node ∧ n.node.IsObject) ∧
      (e.outermost.Pairwise fun n m => n.positions < m.positions) ∧
      (outcome.trace = [] ↔ ∀ entries, ¬ Value.StandsIn (.object entries) e) ∧
      ((∀ entries, ¬ Value.StandsIn (.object entries) e) → outcome.result = e) := by
  obtain ⟨values, hresult, hsteps⟩ := e.fillsIn _ _ _ (evaluate_ok_iff.mp h)
  have hfill : outcome.result = e.fill (resultAt outcome.trace) :=
    hresult.trans (Value.fill_congr e fun n hn => (resultAt_eq hsteps n hn).symm)
  refine ⟨hsteps.imp fun step n hstep => ⟨hstep.path, hstep.operator, hstep.run⟩, hfill,
    fun n => Value.mem_outermost_iff, Value.pairwise_outermost e, ?_, fun hnone => ?_⟩
  · rw [← Value.outermost_eq_nil_iff, ← List.length_eq_zero_iff, hsteps.length_eq,
      List.length_eq_zero_iff]
  · rw [hfill, Value.fill_of_outermost_eq_nil e _ (Value.outermost_eq_nil_iff.mpr hnone)]

/-- Two nodes in an inner array, with a literal between them, and one behind it; the first has a
node in its argument. -/
theorem result_eq_fill_outermost_nested :
    let e : Value := .array [.string "x", .array [
      .object [("!", .array [.object [("var", .null)]])], .bool true,
      .object [("var", .string "a")]], .object [("and", .array [])]]
    let c : Value := .object [("a", .object [("var", .null)])]
    ∃ outcome, evaluate e c = .ok outcome ∧
      outcome.trace.map TraceStep.path = ["$[1][0]", "$[1][2]", "$[2]"] ∧
      outcome.result = .array [.string "x", .array [.bool false, .bool true,
        .object [("var", .null)]], .bool true] ∧
      List.Forall₂ (fun step n => step.path = n.path ∧
        (∃ argument, n.node = .object [(step.operator, argument)]) ∧
        n.node.run ⟨c, step.path⟩ = .ok (step.result, [step])) outcome.trace e.outermost ∧
      outcome.result = e.fill (resultAt outcome.trace) := by
  intro e c
  obtain ⟨outcome, h, hpaths, hresult⟩ : ∃ outcome, evaluate e c = .ok outcome ∧
      outcome.trace.map TraceStep.path = ["$[1][0]", "$[1][2]", "$[2]"] ∧
      outcome.result = .array [.string "x", .array [.bool false, .bool true,
        .object [("var", .null)]], .bool true] := ⟨_, rfl, rfl, rfl⟩
  obtain ⟨hsteps, hfill, -⟩ := result_eq_fill_outermost e c outcome h
  exact ⟨outcome, h, hpaths, hresult, hsteps, hfill⟩

end DecisionRules
