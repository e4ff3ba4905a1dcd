import DecisionRules.Proofs.Rule.Congruence
import DecisionRules.Proofs.Value.Object

/-!
# Proofs/Rule/Fields — an evaluation depends on the fields that the expression names

Only `var`, `missing` and `missing_some` look at the context, and only along the paths that are
written in them.  A path that is not empty enters the context by the field before its first point
(`Value.resolve_object`), so two contexts that agree in those fields cannot be told apart: not by
the result, not by anything recorded in the trace, not by an error
(`evaluate_eq_of_lookup_eq`).

Operators cannot tell apart what evaluates alike (`Operator.apply_congr`), so all that is left are
the contexts that they evaluate in.  For a predicate that is the old one with `item` and `index`
bound on top, and contexts that agree go on agreeing (`AgreeOn.bound`).
-/

namespace DecisionRules

/-! ## What an expression names -/

/-- What stands before the first point of a path, all of it if there is none. -/
def firstSegment (path : String) : String := String.ofList (path.toList.takeWhile (· != '.'))

namespace Value

mutual

/-- The paths written in the nodes of an expression, wherever they stand.  Nothing in an object that
is no node is evaluated, so nothing in it counts. -/
def paths : Value → List String
  | .object [(name, argument)] =>
    ((Operator.ofName? name).map (·.writtenPaths argument)).getD [] ++ argument.paths
  | .object _ => []
  | .array items => pathsOfItems items
  | _ => []
  termination_by structural e => e

/-- The paths written in the items of an array. -/
def pathsOfItems : List Value → List String
  | [] => []
  | e :: rest => e.paths ++ pathsOfItems rest
  termination_by structural items => items

end

/-- The fields of the context that an expression names: the first segments of its paths. -/
def fields (e : Value) : List String := e.paths.map firstSegment

theorem paths_node {name : String} {operator : Operator}
    (hname : Operator.ofName? name = some operator) (argument : Value) :
    (Value.object [(name, argument)]).paths = operator.writtenPaths argument ++ argument.paths := by
  rw [paths, hname, Option.map_some, Option.getD_some]

/-- The paths of an item are among those of its array. -/
theorem paths_subset_of_mem {e : Value} :
    ∀ {items : List Value}, e ∈ items → e.paths ⊆ pathsOfItems items
  | first :: rest, h, path, hpath => by
    rw [pathsOfItems, List.mem_append]
    rcases List.mem_cons.mp h with rfl | h
    · exact .inl hpath
    · exact .inr (paths_subset_of_mem h hpath)

/-- **The paths of a sub-expression** are among those of the expression. -/
theorem paths_subset_of_sub? {e inner : Value} {m : Move} (h : e.sub? m = some inner) :
    inner.paths ⊆ e.paths := by
  unfold sub? at h
  split at h
  · exact paths_subset_of_mem (List.mem_of_getElem? h)
  · rename_i name argument role
    obtain ⟨operator, hname, hpart⟩ := Option.bind_eq_some_iff.mp h
    have hinner : inner.paths ⊆ argument.paths := by
      unfold Operator.part? at hpart
      split at hpart
      · exact paths_subset_of_mem (mem_of_pick? hpart)
      · split at hpart
        · cases hpart
          exact List.Subset.refl _
        · cases hpart
    rw [paths_node hname]
    exact fun path hpath => List.mem_append_right _ (hinner hpath)
  · cases h

end Value

/-! ## Contexts that agree -/

/-- Two objects have the same value, or none, under each of these keys. -/
def AgreeOn (keys : List String) (xs ys : List (String × Value)) : Prop :=
  ∀ key ∈ keys, xs.lookup key = ys.lookup key

/-- These keys are enough to follow these paths into an object. -/
def Covers (keys paths : List String) : Prop :=
  ∀ path ∈ paths, path ≠ "" ∧ firstSegment path ∈ keys

namespace Value

/-- A path starts with what stands before its first point. -/
theorem splitAtDots_eq_cons : ∀ cs : List Char,
    ∃ rest, splitAtDots cs = cs.takeWhile (· != '.') :: rest
  | [] => ⟨[], rfl⟩
  | c :: cs => by
    rw [splitAtDots]
    by_cases hc : c = '.'
    · exact ⟨splitAtDots cs, by simp [hc]⟩
    · obtain ⟨rest, hrest⟩ := splitAtDots_eq_cons cs
      exact ⟨rest, by simp [hc, hrest]⟩

/-- **A path that is not empty enters an object by its first segment.** -/
theorem resolve_object {path : String} (h : path ≠ "") : ∃ rest, ∀ xs : List (String × Value),
    (Value.object xs).resolve path = (xs.lookup (firstSegment path)).bind (walk · rest) := by
  obtain ⟨rest, hrest⟩ := splitAtDots_eq_cons path.toList
  refine ⟨rest.map String.ofList, fun xs => ?_⟩
  have hpath : path.isEmpty = false := by simpa using h
  rw [resolve, hpath, segments, hrest]
  rfl

end Value

section Agreeing

variable {keys : List String} {xs ys : List (String × Value)}

theorem AgreeOn.insert (h : AgreeOn keys xs ys) (key : String) (value : Value) :
    AgreeOn keys (Value.insert key value xs) (Value.insert key value ys) := fun other hother => by
  rw [Value.lookup_insert, Value.lookup_insert, h other hother]

/-- **Contexts that agree go on agreeing under a quantifier.** -/
theorem AgreeOn.bound (h : AgreeOn keys xs ys) (item : Value) (i : Nat) :
    ∃ xs' ys', Rule.bindItem (.object xs) item i = .object xs' ∧
      Rule.bindItem (.object ys) item i = .object ys' ∧ AgreeOn keys xs' ys' :=
  ⟨_, _, rfl, rfl, (h.insert "item" item).insert "index" (.ofInt i)⟩

/-- Contexts that agree lead to the same along every path that is covered. -/
theorem AgreeOn.resolve_eq (h : AgreeOn keys xs ys) {path : String} (hpath : path ≠ "")
    (hkey : firstSegment path ∈ keys) :
    (Value.object xs).resolve path = (Value.object ys).resolve path := by
  obtain ⟨rest, hresolve⟩ := Value.resolve_object hpath
  rw [hresolve, hresolve, h _ hkey]

theorem AgreeOn.resolve_eq_of_covers (h : AgreeOn keys xs ys) {paths : List String}
    (hcovers : Covers keys paths) :
    ∀ path ∈ paths, (Value.object xs).resolve path = (Value.object ys).resolve path :=
  fun path hpath => h.resolve_eq (hcovers path hpath).1 (hcovers path hpath).2

end Agreeing

/-! ## Operators

An expression reads only some fields if contexts that agree in them give the same computation, at
every place.  What an operator runs is an argument with a role in its node, so it is enough that
those read only the fields in question, and that the paths written in the node are covered. -/

/-- Evaluating an expression depends on these fields of the context and on nothing else in it. -/
def Value.ReadsOnly (e : Value) (keys : List String) : Prop :=
  ∀ ⦃xs ys⦄, AgreeOn keys xs ys → ∀ path, e.run ⟨.object xs, path⟩ = e.run ⟨.object ys, path⟩

namespace Rule

variable {keys : List String} {xs ys : List (String × Value)}

/-- The arguments of a node that its operator may run read only these fields. -/
def PartsReadOnly (keys : List String) (operator : Operator) (argument : Value) : Prop :=
  ∀ role inner, operator.part? argument role = some inner → inner.ReadsOnly keys

theorem PartsReadOnly.items {operator : Operator} {items : List Value}
    (h : PartsReadOnly keys operator (.array items)) : ∀ e ∈ items, e.ReadsOnly keys := by
  intro e he
  obtain ⟨i, hi⟩ := List.getElem?_of_mem he
  refine h (.argument i) e ?_
  rw [Operator.part?, Operator.pick?_argument, hi]

/-- **Contexts that agree cannot be told apart** by such arguments. -/
theorem PartsReadOnly.indistinct {operator : Operator} {argument : Value}
    (hparts : PartsReadOnly keys operator argument) (h : AgreeOn keys xs ys) :
    Value.IndistinctArguments operator (.object xs) (.object ys) argument argument := by
  rcases hitems : argument.items? with _ | items
  · refine .bare hitems hitems (.refl argument) fun hnot => hparts (.argument 0) argument ?_ h
    cases argument with
    | array items => cases hitems
    | _ => exact if_pos ⟨hnot, rfl⟩
  · obtain rfl := Value.eq_array_of_items? hitems
    exact .list (List.forall₂_same.mpr fun e he => ⟨.refl e, hparts.items e he h⟩)

/-- The predicate runs in contexts that still agree. -/
theorem quantification_agree (h : AgreeOn keys xs ys) {q : Quantifier} {argument : Value}
    (hparts : PartsReadOnly keys (.quantify q) argument) (path : String) :
    quantification q argument.asArguments ⟨.object xs, path⟩ =
      quantification q argument.asArguments ⟨.object ys, path⟩ := by
  by_cases hpair : ∃ s p, argument = .array [s, p]
  · obtain ⟨s, p, rfl⟩ := hpair
    refine quantification_congr (hparts .sequence s rfl h)
      (fun _ _ _ _ k item _ _ path => ?_) path
    obtain ⟨xs', ys', hxs, hys, hbound⟩ := h.bound item k
    rw [hxs, hys, hparts (.predicate 0) p rfl hbound]
  · have hfail := asPair_eq_fail (.quantify q) .notSequenceAndPredicate
      fun s p hargument => hpair ⟨s, p, hargument⟩
    simp only [quantification, hfail, Recorded.fail_bind]

end Rule

open Rule in
/-- **Every operator looks at the context along the paths written in its node**, and otherwise
leaves it to the arguments that it runs. -/
theorem Operator.apply_agree {keys : List String} {xs ys : List (String × Value)}
    (h : AgreeOn keys xs ys) {operator : Operator} {argument : Value}
    (hparts : PartsReadOnly keys operator argument)
    (hcovers : Covers keys (operator.writtenPaths argument)) (path : String) :
    operator.apply argument.asArguments ⟨.object xs, path⟩ =
      operator.apply argument.asArguments ⟨.object ys, path⟩ := by
  by_cases hoperator : ∃ q, operator = .quantify q
  · obtain ⟨q, rfl⟩ := hoperator
    exact quantification_agree h hparts path
  · exact Operator.apply_congr (fun q hq => hoperator ⟨q, hq⟩) (hparts.indistinct h)
      (h.resolve_eq_of_covers hcovers) path

/-! ## Expressions -/

/-- **An expression reads only the fields that its paths enter the context by**, if none of its
paths is empty. -/
theorem Value.readsOnly_of_covers (e : Value) : ∀ keys, Covers keys e.paths → e.ReadsOnly keys := by
  induction e using Value.moveInduction with
  | h e ih =>
    intro keys hcovers xs ys h path
    have hinner : ∀ m inner, e.sub? m = some inner → inner.ReadsOnly keys := fun m inner hsub =>
      ih m inner hsub keys fun p hp => hcovers p (paths_subset_of_sub? hsub hp)
    cases e using Value.expressionCases with
    | literal e hliteral => rw [run_literal hliteral, run_literal hliteral]
    | array items =>
      have hitems : ∀ e ∈ items, e.ReadsOnly keys := fun e he => by
        obtain ⟨i, hi⟩ := List.getElem?_of_mem he
        exact hinner (.item i) e hi
      exact run_array_congr (List.forall₂_same.mpr fun e he => ⟨.refl e, hitems e he h⟩) path
    | node name argument =>
      refine run_node_congr (fun operator hname => ?_) path
      rw [paths_node hname] at hcovers
      have hparts : Rule.PartsReadOnly keys operator argument := fun role inner hpart =>
        hinner (.part role) inner ((Rule.inNode hname argument role).trans hpart)
      exact Operator.apply_agree h hparts fun p hp => hcovers p (List.mem_append_left _ hp)
    | malformed entries hlength => rw [run_malformed hlength, run_malformed hlength]

/-- **An evaluation depends on the fields that the expression names, and on nothing else in the
context.**  If no path in an expression is empty, then two objects with the same value, or none,
under the first segment of each of its paths give the same evaluation: the same result with the same
trace, or the same error. -/
theorem evaluate_eq_of_lookup_eq (e : Value) (xs ys : List (String × Value)) (hnamed : "" ∉ e.paths)
    (hagree : ∀ key ∈ e.fields, xs.lookup key = ys.lookup key) :
    evaluate e (.object xs) = evaluate e (.object ys) := by
  have hcovers : Covers e.fields e.paths := fun path hpath =>
    ⟨fun h => hnamed (h ▸ hpath), List.mem_map_of_mem hpath⟩
  rw [evaluate, evaluate, e.readsOnly_of_covers e.fields hcovers hagree]

/-- A quantifier whose predicate reads the element, its position and a limit outside, and looks for
a field of the element; the contexts differ in a field that is not named, and in the order of the
others. -/
theorem evaluate_eq_of_lookup_eq_quantifier :
    let e : Value := .object [("bl_all", .array [.object [("var", .string "order.lines")],
      .object [("if", .array [.object [("missing", .array [.string "item.price"])],
        .object [("<", .array [.object [("var", .string "index")],
          .object [("var", .array [.string "limit", .number 1])]])]])]])]
    let order : Value := .object [("lines", .array [.null, .object [("price", .number 2)]])]
    let xs := [("order", order), ("limit", .number 3), ("secret", .bool true)]
    let ys := [("limit", .number 3), ("order", order)]
    "" ∉ e.paths ∧ (∀ key ∈ e.fields, xs.lookup key = ys.lookup key) ∧
      evaluate e (.object xs) = evaluate e (.object ys) := by
  intro e order xs ys
  have hnamed : "" ∉ e.paths := by decide
  have hfields : e.fields = ["order", "item", "index", "limit"] := by decide
  have hagree : ∀ key ∈ e.fields, xs.lookup key = ys.lookup key := by
    rw [hfields]
    simp only [List.forall_mem_cons]
    exact ⟨rfl, rfl, rfl, rfl, fun _ h => absurd h List.not_mem_nil⟩
  exact ⟨hnamed, hagree, evaluate_eq_of_lookup_eq e xs ys hnamed hagree⟩

end DecisionRules
