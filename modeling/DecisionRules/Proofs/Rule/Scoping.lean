import DecisionRules.Proofs.Rule.Fields
import DecisionRules.Proofs.Value.Addressing

/-!
# Proofs/Rule/Scoping — what a predicate sees

A quantifier runs its predicate in a scope: the context it was given with `item` and `index` bound
on top.  The scope shows every other field of the context and nothing of a context without fields
(`Rule.resolve_bindItem`).  Binding once more replaces both and leaves the rest in place, order
included, so a scope inside others is the scope that the outermost context would have given
(`Rule.bindItem_bindNested`): however deeply quantifiers stand in each other's predicates, each of
them hides the items around it and nothing else.
-/

namespace DecisionRules

namespace Rule

/-! ## The entries of a scope -/

/-- The entries of the scope of a predicate, for an item at a position. -/
def scopeEntries (context item : Value) (i : Nat) : List (String × Value) :=
  Value.insert "index" (.ofInt i) (Value.insert "item" item (context.entries?.getD []))

theorem bindItem_eq (context item : Value) (i : Nat) :
    bindItem context item i = .object (scopeEntries context item i) := rfl

theorem lookup_scopeEntries (context item : Value) (i : Nat) (key : String) :
    (scopeEntries context item i).lookup key =
      if key = "index" then some (.ofInt i)
      else if key = "item" then some item
      else (context.entries?.getD []).lookup key := by
  rw [scopeEntries, Value.lookup_insert, Value.lookup_insert]

/-- A scope shows its item. -/
theorem resolve_item (context item : Value) (i : Nat) :
    (bindItem context item i).resolve "item" = some item := by
  rw [bindItem_eq, Value.resolve_key (by decide) (by decide), lookup_scopeEntries]
  rfl

/-- A scope shows its position. -/
theorem resolve_index (context item : Value) (i : Nat) :
    (bindItem context item i).resolve "index" = some (.ofInt i) := by
  rw [bindItem_eq, Value.resolve_key (by decide) (by decide), lookup_scopeEntries]
  rfl

/-- A path behind `item` leads into the item. -/
theorem resolve_item_append (context item : Value) (i : Nat) {path : String} (hpath : path ≠ "") :
    (bindItem context item i).resolve ("item." ++ path) = item.resolve path := by
  have happend := @Value.resolve_key_append "item" path (by decide) hpath
  rw [bindItem_eq]
  refine (happend (scopeEntries context item i)).trans ?_
  rw [lookup_scopeEntries]
  rfl

/-- **A scope shows the other fields of its context**, and none if the context has no fields. -/
theorem resolve_bindItem (context item : Value) (i : Nat) {path : String} (hpath : path ≠ "")
    (hitem : firstSegment path ≠ "item") (hindex : firstSegment path ≠ "index") :
    (bindItem context item i).resolve path =
      if context.entries?.isSome then context.resolve path else none := by
  obtain ⟨rest, hresolve⟩ := Value.resolve_object hpath
  rw [bindItem_eq, hresolve, lookup_scopeEntries, if_neg hindex, if_neg hitem]
  cases context with
  | object entries => exact (hresolve entries).symm
  | _ => rfl

/-- No path in an expression is empty or enters a scope by `item` or `index`. -/
def LooksPast (e : Value) : Prop :=
  ∀ path ∈ e.paths, path ≠ "" ∧ firstSegment path ≠ "item" ∧ firstSegment path ≠ "index"

/-- **An expression that looks past the item and its position** does not see the scope. -/
theorem LooksPast.run_bindItem {e : Value} (h : LooksPast e) (entries : List (String × Value))
    (item : Value) (i : Nat) (path : String) :
    e.run ⟨bindItem (.object entries) item i, path⟩ = e.run ⟨.object entries, path⟩ := by
  have hcovers : Covers e.fields e.paths := fun p hp => ⟨(h p hp).1, List.mem_map_of_mem hp⟩
  have hagree : AgreeOn e.fields (scopeEntries (.object entries) item i) entries := by
    intro key hkey
    obtain ⟨p, hp, rfl⟩ := List.mem_map.mp hkey
    obtain ⟨-, hitem, hindex⟩ := h p hp
    rw [lookup_scopeEntries, if_neg hindex, if_neg hitem]
    rfl
  rw [bindItem_eq]
  exact e.readsOnly_of_covers e.fields hcovers hagree path

/-! ## Scopes in scopes -/

/-- **Binding again is binding once**, on the outer context. -/
theorem bindItem_bindItem (context v w : Value) (i j : Nat) :
    bindItem (bindItem context v i) w j = bindItem context w j := by
  have hne : "item" ≠ "index" := by decide
  -- The outer `item` is replaced where it stands, past the `index` that was put behind it.
  have hmem : "item" ∈ (Value.insert "item" v (context.entries?.getD [])).map Prod.fst := by
    rw [KeyMap.mem_keys_iff, Value.lookup_insert, if_pos rfl]
    rfl
  have hitem := Value.insert_comm_of_mem hne w (.ofInt i) hmem
  rw [bindItem_eq, bindItem_eq, bindItem_eq, scopeEntries]
  simp only [Value.entries?, Option.getD_some]
  rw [scopeEntries, hitem, Value.insert_insert, Value.insert_insert, scopeEntries]

/-- The scope of a predicate that stands in the predicates of other quantifiers, the outermost
first. -/
def bindNested (context : Value) (outer : List (Value × Nat)) : Value :=
  outer.foldl (fun scope bound => bindItem scope bound.1 bound.2) context

/-- **A scope in other scopes** is the one that the outermost context gives. -/
theorem bindItem_bindNested (outer : List (Value × Nat)) : ∀ (context item : Value) (i : Nat),
    bindItem (bindNested context outer) item i = bindItem context item i := by
  induction outer with
  | nil => exact fun _ _ _ => rfl
  | cons bound outer ih =>
    intro context item i
    rw [bindNested, List.foldl_cons]
    exact (ih _ item i).trans (bindItem_bindItem context bound.1 item bound.2 i)

/-- The scopes around a quantifier do not show in the scan of its elements. -/
theorem scanElements_bindNested (q : Quantifier) (predicate : Term) (context : Value)
    (outer : List (Value × Nat)) (path : String) (elements : List Value) : ∀ k,
    scanElements q predicate ⟨bindNested context outer, path⟩ k elements =
      scanElements q predicate ⟨context, path⟩ k elements := by
  induction elements with
  | nil => exact fun _ => rfl
  | cons item rest ih =>
    intro k
    simp only [scanElements, Place.child, bindItem_bindNested, ih]

end Rule

open Rule

/-- **The scope of a predicate**, for an item at a position on top of a context:

* a path that is not empty and starts with neither `item` nor `index` leads where it leads in the
  context, if that is an object, and nowhere otherwise;
* `item` leads to the item, a path behind it to what it leads to in the item, and `index` to the
  position;
* binding again gives the scope of the new item on the outer context, and so does the same binding
  inside any number of others.  Hence the elements of an inner sequence are scanned as if there was
  nothing around the quantifier. -/
theorem scope_of_predicate (context item : Value) (i : Nat) :
    (∀ path, path ≠ "" → firstSegment path ≠ "item" → firstSegment path ≠ "index" →
      (bindItem context item i).resolve path =
        if context.entries?.isSome then context.resolve path else none) ∧
    (bindItem context item i).resolve "item" = some item ∧
    (∀ path, path ≠ "" → (bindItem context item i).resolve ("item." ++ path) = item.resolve path) ∧
    (bindItem context item i).resolve "index" = some (.ofInt i) ∧
    (∀ w j, bindItem (bindItem context item i) w j = bindItem context w j) ∧
    ∀ outer, bindItem (bindNested context outer) item i = bindItem context item i ∧
      ∀ q predicate path k elements,
        scanElements q predicate ⟨bindNested context outer, path⟩ k elements =
          scanElements q predicate ⟨context, path⟩ k elements := by
  refine ⟨fun path => resolve_bindItem context item i, resolve_item context item i,
    fun path => resolve_item_append context item i, resolve_index context item i,
    fun w j => bindItem_bindItem context item w i j, fun outer => ?_⟩
  exact ⟨bindItem_bindNested outer context item i, fun q predicate path k elements =>
    scanElements_bindNested q predicate context outer path elements k⟩

/-- A context that has fields called `item` and `index`, in the other order, and one that is no
object. -/
theorem scope_of_predicate_shadowed :
    let context : Value :=
      .object [("index", .null), ("limit", .object [("max", .string "9")]), ("item", .bool false)]
    let item : Value := .array [.null, .string "x"]
    let scope := bindItem context item 4
    firstSegment "limit.max" ≠ "item" ∧ firstSegment "limit.max" ≠ "index" ∧
      scope.resolve "limit.max" = some (.string "9") ∧ scope.resolve "item" = some item ∧
      scope.resolve "item.1" = some (.string "x") ∧ scope.resolve "index" = some (.ofInt 4) ∧
      bindItem scope .null 0 = bindItem context .null 0 ∧
      (bindItem item .null 0).resolve "1" = none := by
  intro context item scope
  have hlimit : firstSegment "limit.max" ≠ "item" ∧ firstSegment "limit.max" ≠ "index" := by decide
  have hdigit : firstSegment "1" ≠ "item" ∧ firstSegment "1" ≠ "index" := by decide
  obtain ⟨hother, hitem, hparts, hindex, hagain, -⟩ := scope_of_predicate context item 4
  obtain ⟨hfieldless, -⟩ := scope_of_predicate item .null 0
  exact ⟨hlimit.1, hlimit.2, hother "limit.max" (by decide) hlimit.1 hlimit.2, hitem,
    hparts "1" (by decide), hindex, hagain .null 0, hfieldless "1" (by decide) hdigit.1 hdigit.2⟩

end DecisionRules
