import DecisionRules.Proofs.Rule.Congruence
import DecisionRules.Proofs.Rule.Verdict

/-!
# Proofs/Rule/ConnectiveLaws — `and`, `or`, `!` and `if` regrouped

`and` and `or` give the value of the argument that decides, else that of the last one.  What they
come to is a fold over what their arguments come to, which starts from the value of an empty list
and goes on from the last value seen (`Rule.verdictUntil`).  Seen so, lists of arguments may be
split (`Rule.verdictUntil_append`), and negating each argument turns the one operator into the other
(`Rule.verdictUntil_map_not`): the laws of Boolean algebra hold of values and errors alike
(`connectives_regroup`).

A chain of conditions is a nest of single ones (`chain_eq_nested`).
-/

namespace DecisionRules

namespace Rule

variable {c : Value}

/-! ## Running until one decides -/

/-- What arguments come to that are run in order until one decides: the value that decides, else the
last one, which is `last` before any is run. -/
def verdictUntil (decides : Value → Bool) (context : Value) :
    Value → List Value → Except EvalError Value
  | last, [] => .ok last
  | _, e :: rest => do
    let v ← e.verdict context
    if decides v then .ok v else verdictUntil decides context v rest

theorem verdict_runUntil (decides : Value → Bool) (path : String) :
    ∀ (items : List Value) (i : Nat) (last : Value),
      (fun seen => seen.getLast?.getD last) <$>
        (runUntil decides ⟨c, path⟩ i (Value.terms items)).verdict =
          verdictUntil decides c last items
  | [], _, _ => rfl
  | e :: rest, i, last => by
    simp only [Value.terms, runUntil, Recorded.verdict_bind, Place.child, Value.verdict_run,
      verdictUntil]
    rcases e.verdict c with err | v
    · rfl
    · simp only [ok_bind]
      split
      · rfl
      · rw [← verdict_runUntil decides path rest (i + 1) v, Recorded.verdict_bind]
        rcases (runUntil decides ⟨c, path⟩ (i + 1) (Value.terms rest)).verdict with err | seen
        · rfl
        · simp [List.getLast?_cons]

/-- **What an operator comes to that runs its arguments until one decides.** -/
theorem verdict_untilDecided (operator : Operator) (decides : Value → Bool) (vacuous : Bool)
    (items : List Value) (path : String) :
    Applied.result <$> (untilDecided operator decides vacuous (Value.array items).asArguments
      ⟨c, path⟩).verdict = verdictUntil decides c (.bool vacuous) items := by
  rw [untilDecided, Value.asList_array, Recorded.pure_bind, Recorded.verdict_bind,
    ← verdict_runUntil decides path items 0]
  rcases (runUntil decides ⟨c, path⟩ 0 (Value.terms items)).verdict with err | seen <;> rfl

theorem verdict_conjunction (items : List Value) (c : Value) : (Operator.and.node items).verdict c =
    verdictUntil (fun v => !v.truthy) c (.bool true) items :=
  (Value.verdict_node .and items c).trans (verdict_untilDecided _ _ _ _ _)

theorem verdict_disjunction (items : List Value) (c : Value) : (Operator.or.node items).verdict c =
    verdictUntil Value.truthy c (.bool false) items :=
  (Value.verdict_node .or items c).trans (verdict_untilDecided _ _ _ _ _)

theorem verdict_negation (e c : Value) : (Operator.not.node [e]).verdict c =
    (fun v => .bool (!v.truthy)) <$> e.verdict c := by
  rw [Value.verdict_node]
  change Applied.result <$> (negation (Value.array [e]).asArguments ⟨c, rootPath⟩).verdict = _
  simp only [negation, Value.asArguments, Value.terms, Recorded.pure_bind, Recorded.verdict_bind,
    Place.child, Value.verdict_run]
  rcases e.verdict c with err | v <;> rfl

/-! ## Laws of such a run -/

/-- **Arguments may be split**: the front is run first, and the rest only if nothing in the front
decides. -/
theorem verdictUntil_append {decides : Value → Bool} (ys : List Value) :
    ∀ (xs : List Value) {last : Value}, decides last = false →
      verdictUntil decides c last (xs ++ ys) = verdictUntil decides c last xs >>= fun v =>
        if decides v then .ok v else verdictUntil decides c v ys
  | [], last, hlast => by simp [verdictUntil, hlast]
  | x :: xs, last, _ => by
    rw [List.cons_append, verdictUntil, verdictUntil]
    rcases x.verdict c with err | v
    · rfl
    · -- What decides in the front still decides when the rest is about to be run.
      cases hv : decides v with
      | true => simp [hv]
      | false => simpa [hv] using verdictUntil_append ys xs hv

/-- What there is before any argument is run does not matter if there is one. -/
theorem verdictUntil_of_ne_nil {decides : Value → Bool} {items : List Value} (h : items ≠ [])
    (last last' : Value) :
    verdictUntil decides c last items = verdictUntil decides c last' items := by
  cases items with
  | nil => exact absurd rfl h
  | cons e rest => rfl

/-- Two arguments: the second is what is left if the first does not decide. -/
theorem verdictUntil_pair (decides : Value → Bool) (last e e' : Value) :
    verdictUntil decides c last [e, e'] = e.verdict c >>= fun v =>
      if decides v then .ok v else e'.verdict c := by
  have hlast (v : Value) : verdictUntil decides c v [e'] = e'.verdict c := by
    rw [verdictUntil]
    rcases e'.verdict c with err | w
    · rfl
    · simp [verdictUntil]
  rw [verdictUntil]
  simp only [hlast]

/-- **Negated arguments** are run as far as the arguments themselves, and come to the negation of
what those come to. -/
theorem verdictUntil_map_not {decides decides' : Value → Bool}
    (h : ∀ v : Value, decides' (.bool (!v.truthy)) = decides v) :
    ∀ (items : List Value) (last : Value),
      verdictUntil decides' c (.bool (!last.truthy)) (items.map fun e => Operator.not.node [e]) =
        (fun v => .bool (!v.truthy)) <$> verdictUntil decides c last items
  | [], _ => rfl
  | e :: rest, last => by
    rw [List.map_cons, verdictUntil, verdictUntil, verdict_negation]
    rcases e.verdict c with err | v
    · rfl
    · simp only [map_ok, ok_bind, h]
      split
      · rfl
      · exact verdictUntil_map_not h rest v

/-! ## Chains of conditions -/

/-- What a chain of conditions and branches comes to. -/
def verdictOfChain (context : Value) : List Value → Except EvalError Value
  | condition :: branch :: rest => do
    let held ← condition.verdict context
    if held.truthy then branch.verdict context else verdictOfChain context rest
  | [otherwise] => otherwise.verdict context
  | [] => .ok .null

theorem verdict_chooseBranch (path : String) : ∀ (items : List Value) (k : Nat),
    Prod.fst <$> (chooseBranch ⟨c, path⟩ k (Value.terms items)).verdict = verdictOfChain c items
  | [], _ => rfl
  | [e], k => by
    simp only [Value.terms, chooseBranch, Recorded.verdict_bind, Place.child, Value.verdict_run,
      verdictOfChain]
    rcases e.verdict c with err | v <;> rfl
  | condition :: branch :: rest, k => by
    simp only [Value.terms, chooseBranch, Recorded.verdict_bind, Place.child, Value.verdict_run,
      verdictOfChain]
    rcases condition.verdict c with err | held
    · rfl
    · simp only [ok_bind]
      split
      · rw [Recorded.verdict_bind, Value.verdict_run]
        rcases branch.verdict c with err | v <;> rfl
      · rw [← verdict_chooseBranch path rest (k + 1), Recorded.verdict_bind]
        rcases (chooseBranch ⟨c, path⟩ (k + 1) (Value.terms rest)).verdict with err | chosen <;> rfl

theorem verdict_ifElse {items : List Value} (h : items ≠ []) (c : Value) :
    (Operator.ifElse.node items).verdict c = verdictOfChain c items := by
  have hterms : (Value.terms items).isEmpty = false := by
    cases items with
    | nil => exact absurd rfl h
    | cons e rest => rfl
  rw [Value.verdict_node, ← verdict_chooseBranch rootPath items 0]
  change Applied.result <$> (ifElse (Value.array items).asArguments ⟨c, rootPath⟩).verdict = _
  rw [ifElse, Value.asList_array, Recorded.pure_bind, hterms, if_neg Bool.false_ne_true,
    Recorded.verdict_bind]
  rcases (chooseBranch ⟨c, rootPath⟩ 0 (Value.terms items)).verdict with err | chosen <;> rfl

end Rule

open Rule

/-- **The laws of Boolean algebra for `and`, `or` and `!`.**  In every context, arguments may be
grouped, if the last group is not empty, and a negation may be moved inwards: the two expressions
come to the same value, or both fail with the same error up to the path that it names. -/
theorem connectives_regroup (c : Value) (xs : List Value) :
    (∀ ys ≠ [],
      (Operator.and.node (xs ++ ys)).verdict c =
        (Operator.and.node [Operator.and.node xs, Operator.and.node ys]).verdict c ∧
      (Operator.or.node (xs ++ ys)).verdict c =
        (Operator.or.node [Operator.or.node xs, Operator.or.node ys]).verdict c) ∧
    (Operator.not.node [Operator.and.node xs]).verdict c =
      (Operator.or.node (xs.map fun x => Operator.not.node [x])).verdict c ∧
    (Operator.not.node [Operator.or.node xs]).verdict c =
      (Operator.and.node (xs.map fun x => Operator.not.node [x])).verdict c := by
  have hgroup {decides : Value → Bool} {vacuous : Value} (hvacuous : decides vacuous = false)
      {ys : List Value} (hys : ys ≠ []) : verdictUntil decides c vacuous (xs ++ ys) =
        verdictUntil decides c vacuous xs >>= fun v =>
          if decides v then .ok v else verdictUntil decides c vacuous ys := by
    rw [verdictUntil_append ys xs hvacuous]
    simp only [verdictUntil_of_ne_nil hys _ vacuous]
  refine ⟨fun ys hys => ⟨?_, ?_⟩, ?_, ?_⟩
  · simp only [verdict_conjunction, verdictUntil_pair]
    exact hgroup rfl hys
  · simp only [verdict_disjunction, verdictUntil_pair]
    exact hgroup rfl hys
  · have hnot (v : Value) : (Value.bool (!v.truthy)).truthy = !v.truthy := rfl
    rw [verdict_negation, verdict_conjunction, verdict_disjunction]
    exact (verdictUntil_map_not hnot xs (.bool true)).symm
  · have hnot (v : Value) : (!(Value.bool (!v.truthy)).truthy) = v.truthy := Bool.not_not v.truthy
    rw [verdict_negation, verdict_disjunction, verdict_conjunction]
    exact (verdictUntil_map_not hnot xs (.bool false)).symm

/-- A front that decides, so that an unknown operator behind it is not run, and one that does not.
-/
theorem connectives_regroup_unknown :
    let c : Value := .object [("x", .string "")]
    let xs : List Value := [.bool true, Operator.var.node [.string "x"]]
    let ws : List Value := [.null, Operator.var.node [.string "x"]]
    let ys : List Value := [.object [("unknown", .array [])], .bool true]
    ys ≠ [] ∧ (Operator.and.node (xs ++ ys)).verdict c = .ok (.string "") ∧
      (Operator.and.node [Operator.and.node xs, Operator.and.node ys]).verdict c =
        .ok (.string "") ∧
      (Operator.or.node (ws ++ ys)).verdict c = .error (.unsupportedOperator "unknown" "") ∧
      (Operator.or.node [Operator.or.node ws, Operator.or.node ys]).verdict c =
        .error (.unsupportedOperator "unknown" "") := by
  intro c xs ws ys
  have hys : ys ≠ [] := List.cons_ne_nil _ _
  obtain ⟨hand, -⟩ := (connectives_regroup c xs).1 ys hys
  obtain ⟨-, hor⟩ := (connectives_regroup c ws).1 ys hys
  have hdecided : (Operator.and.node (xs ++ ys)).verdict c = .ok (.string "") := rfl
  have hfailed : (Operator.or.node (ws ++ ys)).verdict c =
    .error (.unsupportedOperator "unknown" "") := rfl
  exact ⟨hys, hdecided, hand ▸ hdecided, hfailed, hor ▸ hfailed⟩

/-- **A chain of conditions is a nest of single ones**: what follows the first condition and its
branch may be an `if` of its own, which comes to the same value, or fails with the same error up to
the path that it names.  A chain without a last alternative behaves in every way as if that were
`null`. -/
theorem chain_eq_nested (c condition branch : Value) :
    (∀ rest ≠ [], (Operator.ifElse.node (condition :: branch :: rest)).verdict c =
      (Operator.ifElse.node [condition, branch, Operator.ifElse.node rest]).verdict c) ∧
    evaluate (Operator.ifElse.node [condition, branch]) c =
      evaluate (Operator.ifElse.node [condition, branch, .null]) c := by
  refine ⟨fun rest hrest => ?_, ?_⟩
  · rw [verdict_ifElse (List.cons_ne_nil _ _), verdict_ifElse (List.cons_ne_nil _ _),
      verdictOfChain, verdictOfChain]
    simp only [verdictOfChain, verdict_ifElse hrest]
  · have hchain (path : String) :
        ifElse (Value.array [condition, branch]).asArguments ⟨c, path⟩ =
          ifElse (Value.array [condition, branch, .null]).asArguments ⟨c, path⟩ := rfl
    have hrun : (Operator.ifElse.node [condition, branch]).run ⟨c, rootPath⟩ =
        (Operator.ifElse.node [condition, branch, .null]).run ⟨c, rootPath⟩ :=
      Value.run_node_congr (fun operator hname path => by cases hname; exact hchain path) rootPath
    rw [evaluate, evaluate, hrun]

/-- A chain of an odd length, whose two conditions fail and whose last alternative is in error. -/
theorem chain_eq_nested_alternative :
    let unknown : Value := .object [("unknown", .null)]
    let rest : List Value := [.string "", unknown, Operator.not.node []]
    let nested : List Value := [.bool false, unknown, Operator.ifElse.node rest]
    rest ≠ [] ∧ (Operator.ifElse.node (.bool false :: unknown :: rest)).verdict .emptyObject =
        .error (.invalidArguments .not .notSingle) ∧
      (Operator.ifElse.node nested).verdict .emptyObject =
        .error (.invalidArguments .not .notSingle) := by
  intro unknown rest nested
  have hrest : rest ≠ [] := List.cons_ne_nil _ _
  have hnested := (chain_eq_nested .emptyObject (.bool false) unknown).1 rest hrest
  have hfailed : (Operator.ifElse.node (.bool false :: unknown :: rest)).verdict .emptyObject =
    .error (.invalidArguments .not .notSingle) := rfl
  exact ⟨hrest, hfailed, hnested ▸ hfailed⟩

end DecisionRules
