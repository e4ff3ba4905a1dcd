import DecisionRules.Proofs.Rule.KeyOrder
import DecisionRules.Proofs.Rule.Scoping
import DecisionRules.Proofs.Rule.ShortCircuit
import DecisionRules.Proofs.Rule.Verdict
import DecisionRules.Proofs.Rule.WellFormed
import DecisionRules.Proofs.Value.Equality

/-!
# Proofs/Rule/MembershipScan — membership is a scan for an equal element

`in` looks for a value among the items of an array or the keys of an object, by itself.  A scan with
`bl_any` does so with `==`: its predicate evaluates the needle again for each element, in a scope in
which `item` is the element.  The two agree (`membership_eq_scan`) if the needle looks past the
scope, so that it has the same value each time (`Rule.LooksPast.run_bindItem`), and because equality
has no sides (`Value.beq_comm`): the one compares the elements with the needle, the other the needle
with the elements.
-/

namespace DecisionRules

/-- The item of a scope, as an expression. -/
def theItem : Value := .object [("var", .string "item")]

namespace Rule

/-! ## Being in a sequence -/

/-- The keys of an object that equal a value: there is one if the value is a text, and a key. -/
theorem any_key_iff (entries : List (String × Value)) (needle : Value) :
    ((entries.map Prod.fst).map Value.string).any (· == needle) = true ↔
      ∃ key ∈ entries.map Prod.fst, needle = .string key := by
  rw [List.any_eq_true]
  constructor
  · rintro ⟨element, hmem, hbeq⟩
    obtain ⟨key, hkey, rfl⟩ := List.mem_map.mp hmem
    cases needle with
    | string other => exact ⟨key, hkey, congrArg _ (beq_iff_eq.mp hbeq : key = other).symm⟩
    | _ => cases hbeq
  · rintro ⟨key, hkey, rfl⟩
    exact ⟨.string key, List.mem_map_of_mem hkey, beq_self_eq_true key⟩

/-- **What is in a sequence** equals one of its elements. -/
theorem isIn?_eq_any {haystack : Value} {elements : List Value}
    (h : elements? haystack = some elements) (needle : Value) :
    isIn? needle haystack = some (elements.any (· == needle)) := by
  cases haystack with
  | array items =>
    cases h
    rfl
  | object entries =>
    rw [elements?_object] at h
    cases h
    cases needle with
    | string key =>
      rw [isIn?, Option.some_inj, Bool.eq_iff_iff, any_key_iff, ← KeyMap.mem_keys_iff]
      simp
    | _ =>
      refine congrArg some (Bool.eq_false_iff.mpr (mt (any_key_iff entries _).mp ?_)).symm
      rintro ⟨_, _, hstring⟩
      cases hstring
  | _ => cases h

/-! ## What the two nodes come to -/

variable {c v w : Value}

theorem verdict_membership {n s : Value} (hn : n.verdict c = .ok v) (hs : s.verdict c = .ok w)
    {found : Bool} (hfound : isIn? v w = some found) :
    (Operator.membership.node [n, s]).verdict c = .ok (.bool found) := by
  rw [Value.verdict_node, Operator.apply, membership, Value.asPair_array, Recorded.pure_bind]
  simp only [Recorded.verdict_bind, Place.child, Value.asTerm, Value.verdict_run, hn, hs, ok_bind,
    hfound]
  rfl

theorem verdict_equal_pair {e e' : Value} (he : e.verdict c = .ok v) (he' : e'.verdict c = .ok w) :
    (Operator.equal.node [e, e']).verdict c = .ok (.bool (w == v)) := by
  rw [Value.verdict_node, Operator.apply, equal, Value.asList_array, Recorded.pure_bind]
  simp only [runEach, runUntil, Value.terms, Recorded.verdict_bind, Place.child,
    Value.verdict_run, he, he', ok_bind, if_neg Bool.false_ne_true]
  simp

theorem verdict_theItem (context item : Value) (i : Nat) :
    theItem.verdict (bindItem context item i) = .ok item := by
  have hresolve := resolve_item context item i
  have hrun : theItem.run ⟨bindItem context item i, rootPath⟩ = Operator.var.runNode
      (Value.string "item").asArguments ⟨bindItem context item i, rootPath⟩ :=
    Operator.run_node .var (.string "item") _
  have htarget : varTarget (Value.string "item").asArguments = pure ("item", none) := rfl
  rw [← Value.verdict_run _ _ rootPath, hrun, Operator.runNode, Operator.apply, var, htarget,
    Recorded.pure_bind]
  simp only [hresolve]
  rfl

/-- **A scan for an element that equals the needle** comes to whether there is one. -/
theorem verdict_scan_equal {n s : Value} {entries : List (String × Value)} {elements : List Value}
    (houter : LooksPast n) (hn : n.verdict (.object entries) = .ok v)
    (hs : s.verdict (.object entries) = .ok w) (helements : elements? w = some elements) :
    (Quantifier.any.node s (Operator.equal.node [theItem, n])).verdict (.object entries) =
      .ok (.bool (elements.any (v == ·))) := by
  have hpredicate (item : Value) (i : Nat) : (Operator.equal.node [theItem, n]).verdict
      (bindItem (.object entries) item i) = .ok (.bool (v == item)) := by
    refine verdict_equal_pair (verdict_theItem _ item i) ?_
    rw [← Value.verdict_run _ _ rootPath, houter.run_bindItem, Value.verdict_run, hn]
  let predicate : Term := (Operator.equal.node [theItem, n]).asTerm
  have hverdict (j : Nat) (item : Value) (_ : elements[j]? = some item) :
      verdict? predicate ⟨.object entries, rootPath⟩ item (0 + j) = some (v == item) := by
    obtain ⟨steps, hrun⟩ := Value.exists_run_of_verdict (hpredicate item (0 + j))
      (Place.child ⟨.object entries, rootPath⟩ (.predicate (0 + j))).path
    exact verdict?_eq_some_iff.mpr ⟨_, steps, rfl, hrun⟩
  obtain ⟨records, steps, hscan⟩ := scanElements_eq .any (v == ·) elements 0 hverdict
  obtain ⟨own, hsequence⟩ := Value.exists_run_of_verdict hs
    (Place.child ⟨.object entries, rootPath⟩ .sequence).path
  have hrun := run_quantifierNode hsequence helements hscan
  rw [← Value.verdict_run _ _ rootPath, hrun]
  simp [Recorded.verdict, combine]

end Rule

open Rule

/-- **Membership equals an equality scan.**  Let two expressions have values in an object, the
second an array or an object, and let the first look past the scope of a predicate.  Then `in` and
a `bl_any` that compares each element with the first expression both succeed, with the same answer:
whether some item of the array equals the value; or whether the value is a text that is a key of the
object. -/
theorem membership_eq_scan (entries : List (String × Value)) (n s : Value)
    (needle sequence : Evaluation) (hcontext : (Value.object entries).WellFormed)
    (hn : n.WellFormed) (hs : s.WellFormed) (houter : LooksPast n)
    (hneedle : evaluate n (.object entries) = .ok needle)
    (hsequence : evaluate s (.object entries) = .ok sequence)
    (helements : (elements? sequence.result).isSome = true) :
    ∃ answer trace trace',
      evaluate (Operator.membership.node [n, s]) (.object entries) = .ok ⟨.bool answer, trace⟩ ∧
      evaluate (Quantifier.any.node s (Operator.equal.node [theItem, n])) (.object entries) =
        .ok ⟨.bool answer, trace'⟩ ∧
      (∀ items, sequence.result = .array items →
        (answer = true ↔ ∃ item ∈ items, (item == needle.result) = true)) ∧
      ∀ fields, sequence.result = .object fields →
        (answer = true ↔ ∃ key ∈ fields.map Prod.fst, needle.result = .string key) := by
  obtain ⟨elements, helements⟩ := Option.isSome_iff_exists.mp helements
  have hnformed := (evaluate_wellFormed hn hcontext hneedle).1
  have hsformed := (evaluate_wellFormed hs hcontext hsequence).1
  have hn' : n.verdict (.object entries) = .ok needle.result :=
    Value.verdict_eq_ok_iff.mpr ⟨needle.trace, hneedle⟩
  have hs' : s.verdict (.object entries) = .ok sequence.result :=
    Value.verdict_eq_ok_iff.mpr ⟨sequence.trace, hsequence⟩
  have hsides : elements.any (· == needle.result) = elements.any (needle.result == ·) := by
    rw [Bool.eq_iff_iff, List.any_eq_true, List.any_eq_true]
    refine exists_congr fun element => and_congr_right fun helement => ?_
    rw [Value.beq_comm (wellFormed_elements hsformed helements element helement) hnformed]
  have hscan := verdict_scan_equal houter hn' hs' helements
  rw [← hsides] at hscan
  have hmember := verdict_membership hn' hs' (isIn?_eq_any helements needle.result)
  obtain ⟨trace, hmember⟩ := Value.verdict_eq_ok_iff.mp hmember
  obtain ⟨trace', hscan⟩ := Value.verdict_eq_ok_iff.mp hscan
  refine ⟨_, trace, trace', hmember, hscan, fun items hitems => ?_, fun fields hfields => ?_⟩
  · rw [hitems] at helements
    cases helements
    exact List.any_eq_true
  · rw [hfields, elements?_object] at helements
    cases helements
    exact any_key_iff fields needle.result

/-- An object that is wanted with its keys in another order, among items and then for one of its
keys, where the context has an `item` of its own. -/
theorem membership_eq_scan_reordered :
    let wanted : Value := .object [("a", .null), ("b", .bool true)]
    let entries := [("item", .null), ("wanted", wanted),
      ("list", .array [.string "a", .object [("b", .bool true), ("a", .null)]])]
    let n : Value := .object [("var", .string "wanted")]
    let s : Value := .object [("var", .string "list")]
    (Value.object entries).WellFormed ∧ n.WellFormed ∧ s.WellFormed ∧ LooksPast n ∧
      (∃ trace trace',
        evaluate (Operator.membership.node [n, s]) (.object entries) = .ok ⟨.bool true, trace⟩ ∧
        evaluate (Quantifier.any.node s (Operator.equal.node [theItem, n])) (.object entries) =
          .ok ⟨.bool true, trace'⟩) ∧
      ∃ trace trace',
        evaluate (Operator.membership.node [.string "b", n]) (.object entries) =
          .ok ⟨.bool true, trace⟩ ∧
        evaluate (Quantifier.any.node n (Operator.equal.node [theItem, .string "b"]))
          (.object entries) = .ok ⟨.bool true, trace'⟩ := by
  intro wanted entries n s
  have hcontext : (Value.object entries).WellFormed := by
    simp [entries, wanted, Value.WellFormed, Value.WellFormedEntries, Value.WellFormedItems]
  have hn : n.WellFormed := by simp [n, Value.WellFormed, Value.WellFormedEntries]
  have hs : s.WellFormed := by simp [s, Value.WellFormed, Value.WellFormedEntries]
  have houter : LooksPast n := by
    rw [LooksPast]
    decide
  have hstring : LooksPast (.string "b") := fun _ h => absurd h List.not_mem_nil
  refine ⟨hcontext, hn, hs, houter, ?_, ?_⟩
  · obtain ⟨answer, trace, trace', hin, hscan, hitems, -⟩ :=
      membership_eq_scan entries n s _ _ hcontext hn hs houter rfl rfl rfl
    obtain rfl : answer = true :=
      (hitems _ rfl).mpr ⟨_, List.mem_cons_of_mem _ List.mem_cons_self, rfl⟩
    exact ⟨trace, trace', hin, hscan⟩
  · obtain ⟨answer, trace, trace', hin, hscan, -, hkeys⟩ :=
      membership_eq_scan entries (.string "b") n _ _ hcontext trivial hn hstring rfl rfl rfl
    obtain rfl : answer = true :=
      (hkeys _ rfl).mpr ⟨"b", List.mem_cons_of_mem _ List.mem_cons_self, rfl⟩
    exact ⟨trace, trace', hin, hscan⟩

end DecisionRules
