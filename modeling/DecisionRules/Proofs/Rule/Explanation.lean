import DecisionRules.Proofs.Rule.ShortCircuit

/-!
# Proofs/Rule/Explanation — every step of a trace explains its own result

A step says what its operator looked at.  `Operator.Explains` gives, for each operator, the results
that follow from what it says, and looks at no expression and no context for it; no two results
follow from the same (`Operator.Explains.result_eq`).

Every operator says what its result follows from, whatever its arguments are
(`Operator.explains_of_apply`), and every step is some operator's (`Value.forall_step_of_run`).  So
whoever reads a trace can check each step of it by itself (`explained_of_evaluate`).
-/

namespace DecisionRules

open TraceStep

/-! ## What follows from a record -/

namespace Rule

/-- What a chain records of a condition that fails. -/
def failedCondition (held : Value) : Value := .object [("condition", held)]

/-- What a scan records of elements and their outcomes, from position `i` on. -/
def scanRecords (i : Nat) (seen : List (Value × Value)) : List Value :=
  (seen.zipIdx i).map fun s => scanRecord s.2 s.1.1 s.1.2

end Rule

/-- The answer of a quantifier that has seen these elements and outcomes: what the last one decides,
if it does. -/
def Quantifier.answer (q : Quantifier) (seen : List (Value × Value)) : Bool :=
  (seen.getLast?.bind fun s => q.decides s.2.truthy).getD q.exhausted

open Rule in
/-- A result of an operator follows from what the step says. -/
inductive Operator.Explains : Operator → (payload result : Value) → Prop
  /-- The value at the path, or what stood in for it. -/
  | var (path : String) (value : Value) (defaulted : Bool) :
    Explains .var (.object [("path", .string path), ("value", value),
      ("default_used", .bool defaulted)]) value
  /-- All values but the last count as true. -/
  | and {seen : List Value} (holds : ∀ v ∈ seen.dropLast, v.truthy = true) :
    Explains .and (.array seen) (seen.getLast?.getD (.bool true))
  /-- No value but the last counts as true. -/
  | or {seen : List Value} (fails : ∀ v ∈ seen.dropLast, v.truthy = false) :
    Explains .or (.array seen) (seen.getLast?.getD (.bool false))
  | not (v : Value) : Explains .not (.array [v]) (.bool (!v.truthy))
  /-- The last condition holds, and its branch was run. -/
  | branch {failed : List Value} {held : Value} (result : Value)
    (fails : ∀ v ∈ failed, v.truthy = false) (holds : held.truthy = true) :
    Explains .ifElse (.array (failed.map failedCondition ++
      [.object [("condition", held), ("branch", result)]])) result
  /-- No condition holds. -/
  | fallback {failed : List Value} (result : Value) (fails : ∀ v ∈ failed, v.truthy = false) :
    Explains .ifElse (.array (failed.map failedCondition ++ [.object [("default", result)]])) result
  | membership {needle haystack : Value} {found : Bool} (test : isIn? needle haystack = some found) :
    Explains .membership (.object [("needle", needle), ("haystack", haystack)]) (.bool found)
  | missing (keys absent : List Value) :
    Explains .missing (.object [("keys", .array keys), ("missing", .array absent)]) (.array absent)
  | missingSome (required : Float) (absent : List Value) :
    Explains .missingSome (.object [("min", .number required), ("missing", .array absent)])
      (.array absent)
  | equal (first : Value) (rest : List Value) :
    Explains .equal (.array (first :: rest)) (.bool (rest.all (· == first)))
  | notEqual (first second : Value) (rest : List Value) :
    Explains .notEqual (.array (first :: second :: rest))
      (.bool ((second :: rest).any (· != first)))
  /-- All pairs of neighbours stand in the relation. -/
  | compare (c : Comparison) (x y : Float) (rest : List Float) :
    Explains (.compare c) (numbersPayload (x :: y :: rest))
      (.bool (((x :: y :: rest).zip (y :: rest)).all fun p => holds c p.1 p.2))
  | add (numbers : List Float) :
    Explains .add (numbersPayload numbers) (.number (numbers.foldl (· + ·) 0))
  | negate (x : Float) : Explains .subtract (numbersPayload [x]) (.number (-x))
  | subtract (x y : Float) (rest : List Float) :
    Explains .subtract (numbersPayload (x :: y :: rest))
      (.number ((y :: rest).foldl (· - ·) x))
  | multiply (numbers : List Float) :
    Explains .multiply (numbersPayload numbers) (.number (numbers.foldl (· * ·) 1))
  /-- No divisor is zero. -/
  | divide (x y : Float) {rest : List Float} (nonzero : ∀ d ∈ y :: rest, (d == 0) = false) :
    Explains .divide (numbersPayload (x :: y :: rest)) (.number ((y :: rest).foldl (· / ·) x))
  | extremum (m : Extremum) (x : Float) (rest : List Float) :
    Explains (.extremum m) (numbersPayload (x :: rest)) (.number (rest.foldl (pick m) x))
  /-- The elements are numbered from zero, and none but the last decides. -/
  | quantify {q : Quantifier} {seen : List (Value × Value)}
    (passes : ∀ s ∈ seen.dropLast, q.decides s.2.truthy = none) :
    Explains (.quantify q) (.array (scanRecords 0 seen)) (.bool (q.answer seen))

/-! ### One result follows -/

theorem Rule.numbersPayload_inj {xs ys : List Float} (h : numbersPayload xs = numbersPayload ys) :
    xs = ys :=
  List.map_injective_iff.mpr (fun _ _ => Value.number.inj) (Value.array.inj h)

theorem Rule.scanRecords_cons (i : Nat) (item outcome : Value) (seen : List (Value × Value)) :
    scanRecords i ((item, outcome) :: seen) =
      scanRecord i item outcome :: scanRecords (i + 1) seen := rfl

theorem Rule.scanRecords_inj : ∀ {seen seen' : List (Value × Value)} {i : Nat},
    scanRecords i seen = scanRecords i seen' → seen = seen'
  | [], [], _, _ => rfl
  | [], _ :: _, _, h => by cases h
  | _ :: _, [], _, h => by cases h
  | (item, outcome) :: seen, (item', outcome') :: seen', i, h => by
    rw [scanRecords_cons, scanRecords_cons] at h
    obtain ⟨hrecord, hrest⟩ := List.cons.inj h
    obtain ⟨rfl, rfl⟩ : item = item' ∧ outcome = outcome' := by
      simpa [scanRecord] using hrecord
    rw [scanRecords_inj hrest]

namespace Operator.Explains

variable {operator : Operator} {payload result result' : Value}

/-- What explains a result is not `null`, which would be no reason at all. -/
theorem payload_ne_null (h : operator.Explains payload result) : payload ≠ .null := by
  cases h <;> exact Value.noConfusion

/-- **No two results follow from the same record.** -/
theorem result_eq (h : operator.Explains payload result) (h' : operator.Explains payload result') :
    result = result' := by
  generalize hpayload : payload = payload' at h'
  -- What two chains record is compared at the end, where they say why they stopped.
  have hlast {front front' : List Value} {last last' : Value}
      (heq : Value.array (front ++ [last]) = .array (front' ++ [last'])) : last = last' :=
    List.singleton_inj.mp (List.append_inj' (Value.array.inj heq) rfl).2
  cases h with
  | var => cases h'; cases hpayload; rfl
  | and => cases h'; cases hpayload; rfl
  | or => cases h'; cases hpayload; rfl
  | not => cases h'; cases hpayload; rfl
  | branch =>
    cases h' with
    | branch => cases hlast hpayload; rfl
    | fallback => exact absurd (hlast hpayload) (by simp)
  | fallback =>
    cases h' with
    | branch => exact absurd (hlast hpayload) (by simp)
    | fallback => cases hlast hpayload; rfl
  | membership test =>
    cases h' with
    | membership test' =>
      cases hpayload
      rw [Option.some.inj (test.symm.trans test')]
  | missing => cases h'; cases hpayload; rfl
  | missingSome => cases h'; cases hpayload; rfl
  | equal => cases h'; cases hpayload; rfl
  | notEqual => cases h'; cases hpayload; rfl
  | quantify =>
    cases h'
    rw [Rule.scanRecords_inj (Value.array.inj hpayload)]
  | negate =>
    cases h' with
    | negate => cases Rule.numbersPayload_inj hpayload; rfl
    | subtract => cases Rule.numbersPayload_inj hpayload
  | subtract =>
    cases h' with
    | negate => cases Rule.numbersPayload_inj hpayload
    | subtract => cases Rule.numbersPayload_inj hpayload; rfl
  | _ =>
    cases h'
    cases Rule.numbersPayload_inj hpayload
    rfl

end Operator.Explains

/-! ## What operators say

Loops first: what a loop records is a record of the same kind with an element in front. -/

section Loops

variable {α : Type} {p : α → Prop}

theorem forall_mem_dropLast_cons {a : α} {rest : List α} (ha : p a)
    (hrest : ∀ b ∈ rest.dropLast, p b) : ∀ b ∈ (a :: rest).dropLast, p b := by
  cases rest with
  | nil => exact List.forall_mem_nil _
  | cons b rest =>
    rw [List.dropLast_cons_cons]
    exact List.forall_mem_cons.mpr ⟨ha, hrest⟩

end Loops

namespace Rule

variable {arguments : Arguments} {place : Place} {steps : List TraceStep}

/-- **No argument but the last one run stops a run.** -/
theorem not_stop_of_runUntil {stop : Value → Bool} : ∀ {terms : List Term} {i : Nat}
    {seen : List Value} {steps : List TraceStep}, runUntil stop place i terms = .ok (seen, steps) →
      ∀ v ∈ seen.dropLast, stop v = false
  | [], _, _, _, h => by
    cases h
    exact List.forall_mem_nil _
  | t :: rest, i, seen, steps, h => by
    obtain ⟨v, _, _, -, hv, -⟩ := Recorded.bind_eq_ok h
    by_cases hstop : stop v = true
    · rw [if_pos hstop] at hv
      cases hv
      exact List.forall_mem_nil _
    · rw [if_neg hstop] at hv
      obtain ⟨more, _, _, hmore, hseen, -⟩ := Recorded.bind_eq_ok hv
      cases hseen
      exact forall_mem_dropLast_cons (Bool.eq_false_iff.mpr hstop) (not_stop_of_runUntil hmore)

/-- A condition that fails may stand in front of what a chain records. -/
theorem explains_failedCondition {held result : Value} {records : List Value}
    (hheld : held.truthy = false) (h : Operator.Explains .ifElse (.array records) result) :
    Operator.Explains .ifElse (.array (failedCondition held :: records)) result := by
  cases h with
  | branch result fails holds => exact .branch result (List.forall_mem_cons.mpr ⟨hheld, fails⟩) holds
  | fallback result fails => exact .fallback result (List.forall_mem_cons.mpr ⟨hheld, fails⟩)

/-- **A chain says which conditions it went through.** -/
theorem explains_of_chooseBranch : ∀ {terms : List Term} {k : Nat} {result : Value}
    {records : List Value} {steps : List TraceStep},
    chooseBranch place k terms = .ok ((result, records), steps) →
      Operator.Explains .ifElse (.array records) result
  | [], _, _, _, _, h => by
    cases h
    exact @Operator.Explains.fallback [] .null (List.forall_mem_nil _)
  | [otherwise], _, _, _, _, h => by
    obtain ⟨v, _, _, -, hv, -⟩ := Recorded.bind_eq_ok h
    cases hv
    exact @Operator.Explains.fallback [] _ (List.forall_mem_nil _)
  | condition :: branch :: rest, k, _, _, _, h => by
    obtain ⟨held, _, _, -, hheld, -⟩ := Recorded.bind_eq_ok h
    by_cases htruth : held.truthy = true
    · rw [if_pos htruth] at hheld
      obtain ⟨v, _, _, -, hv, -⟩ := Recorded.bind_eq_ok hheld
      cases hv
      exact @Operator.Explains.branch [] _ _ (List.forall_mem_nil _) htruth
    · rw [if_neg htruth] at hheld
      obtain ⟨⟨v, records⟩, _, _, hrest, hv, -⟩ := Recorded.bind_eq_ok hheld
      cases hv
      exact explains_failedCondition (Bool.eq_false_iff.mpr htruth) (explains_of_chooseBranch hrest)

theorem answer_cons {q : Quantifier} {s : Value × Value} (h : q.decides s.2.truthy = none)
    (seen : List (Value × Value)) : q.answer (s :: seen) = q.answer seen := by
  cases seen with
  | nil => simp [Quantifier.answer, h]
  | cons t seen => rw [Quantifier.answer, List.getLast?_cons_cons, Quantifier.answer]

/-- **A scan says which elements it came to**, with the outcome for each. -/
theorem exists_seen_of_scanElements {q : Quantifier} {predicate : Term} :
    ∀ {elements : List Value} {i : Nat} {answer : Bool} {records : List Value}
      {steps : List TraceStep},
      scanElements q predicate place i elements = .ok ((answer, records), steps) →
        ∃ seen, records = scanRecords i seen ∧ answer = q.answer seen ∧
          ∀ s ∈ seen.dropLast, q.decides s.2.truthy = none
  | [], _, _, _, _, h => by
    cases h
    exact ⟨[], rfl, rfl, List.forall_mem_nil _⟩
  | item :: rest, i, _, _, _, h => by
    obtain ⟨outcome, _, _, -, houtcome, -⟩ := Recorded.bind_eq_ok h
    rcases hdecides : q.decides outcome.truthy with _ | answer
    · simp only [hdecides] at houtcome
      obtain ⟨⟨answer, records⟩, _, _, hrest, hanswer, -⟩ := Recorded.bind_eq_ok houtcome
      cases hanswer
      obtain ⟨seen, rfl, rfl, hseen⟩ := exists_seen_of_scanElements hrest
      exact ⟨(item, outcome) :: seen, rfl, (answer_cons hdecides seen).symm,
        forall_mem_dropLast_cons hdecides hseen⟩
    · simp only [hdecides] at houtcome
      cases houtcome
      refine ⟨[(item, outcome)], rfl, ?_, List.forall_mem_nil _⟩
      simp [Quantifier.answer, hdecides]

/-! ### Numbers -/

/-- What is computed from numbers is computed from those that are recorded. -/
theorem exists_numbers_of_onNumbers {operator : Operator}
    {compute : List Float → Except EvalError Value} {applied : Applied}
    (h : onNumbers operator compute arguments place = .ok (applied, steps)) :
    ∃ numbers, compute numbers = .ok applied.result ∧ applied.payload = numbersPayload numbers := by
  obtain ⟨terms, _, _, -, h, -⟩ := Recorded.bind_eq_ok h
  obtain ⟨numbers, _, _, -, h, -⟩ := Recorded.bind_eq_ok h
  rcases hcompute : compute numbers with e | v
  · rw [hcompute] at h
    cases h
  · rw [hcompute] at h
    cases h
    exact ⟨numbers, hcompute, rfl⟩

theorem holdsAlong_eq (r : Float → Float → Bool) : ∀ (x : Float) (rest : List Float),
    holdsAlong r (x :: rest) = ((x :: rest).zip rest).all fun p => r p.1 p.2
  | _, [] => rfl
  | x, y :: rest => by
    rw [holdsAlong, holdsAlong_eq r y rest, List.zip_cons_cons, List.all_cons]

theorem explains_of_comparison {c : Comparison} {numbers : List Float} {v : Value}
    (h : comparison c numbers = .ok v) :
    Operator.Explains (.compare c) (numbersPayload numbers) v := by
  rcases numbers with _ | ⟨x, _ | ⟨y, rest⟩⟩
  · cases h
  · cases h
  · cases h
    rw [holdsAlong_eq]
    exact .compare c x y rest

theorem explains_of_sum {numbers : List Float} {v : Value} (h : sum numbers = .ok v) :
    Operator.Explains .add (numbersPayload numbers) v := by
  cases h
  exact .add numbers

theorem explains_of_product {numbers : List Float} {v : Value} (h : product numbers = .ok v) :
    Operator.Explains .multiply (numbersPayload numbers) v := by
  cases h
  exact .multiply numbers

theorem explains_of_difference {numbers : List Float} {v : Value} (h : difference numbers = .ok v) :
    Operator.Explains .subtract (numbersPayload numbers) v := by
  rcases numbers with _ | ⟨x, _ | ⟨y, rest⟩⟩
  · cases h
  · cases h
    exact .negate x
  · cases h
    exact .subtract x y rest

/-- **A division that succeeds** comes to no zero. -/
theorem divideBy_eq_ok : ∀ {divisors : List Float} {x quotient : Float},
    divideBy x divisors = .ok quotient →
      quotient = divisors.foldl (· / ·) x ∧ ∀ d ∈ divisors, (d == 0) = false
  | [], _, _, h => by
    cases h
    exact ⟨rfl, List.forall_mem_nil _⟩
  | d :: rest, x, quotient, h => by
    rw [divideBy] at h
    split at h
    · cases h
    · rename_i hd
      obtain ⟨hquotient, hrest⟩ := divideBy_eq_ok h
      exact ⟨hquotient, List.forall_mem_cons.mpr ⟨Bool.eq_false_iff.mpr hd, hrest⟩⟩

theorem explains_of_quotient {numbers : List Float} {v : Value} (h : quotient numbers = .ok v) :
    Operator.Explains .divide (numbersPayload numbers) v := by
  rcases numbers with _ | ⟨x, _ | ⟨y, rest⟩⟩
  · cases h
  · cases h
  · rw [quotient] at h
    rcases hdivided : divideBy x (y :: rest) with e | z
    · rw [hdivided] at h
      cases h
    · rw [hdivided] at h
      cases h
      obtain ⟨rfl, hnonzero⟩ := divideBy_eq_ok hdivided
      exact .divide x y hnonzero

theorem explains_of_extremum {m : Extremum} {numbers : List Float} {v : Value}
    (h : Rule.extremum m numbers = .ok v) :
    Operator.Explains (.extremum m) (numbersPayload numbers) v := by
  rcases numbers with _ | ⟨x, rest⟩
  · cases h
  · cases h
    exact .extremum m x rest

/-- An operator on numbers says what it computes from, if what it computes follows from that. -/
theorem explains_of_onNumbers {operator : Operator} {compute : List Float → Except EvalError Value}
    (hcompute : ∀ {numbers v}, compute numbers = .ok v →
      operator.Explains (numbersPayload numbers) v)
    {applied : Applied} (h : onNumbers operator compute arguments place = .ok (applied, steps)) :
    operator.Explains applied.payload applied.result := by
  obtain ⟨numbers, hresult, hpayload⟩ := exists_numbers_of_onNumbers h
  rw [hpayload]
  exact hcompute hresult

/-! ### Operators -/

variable {applied : Applied}

theorem explains_of_var (h : var arguments place = .ok (applied, steps)) :
    Operator.Explains .var applied.payload applied.result := by
  obtain ⟨⟨path, standIn⟩, _, _, -, h, -⟩ := Recorded.bind_eq_ok h
  dsimp only at h
  split at h
  · cases h
    exact .var ..
  · obtain ⟨v, _, _, -, hv, -⟩ := Recorded.bind_eq_ok h
    cases hv
    exact .var ..
  · cases h
    exact .var ..

theorem explains_of_conjunction (h : conjunction arguments place = .ok (applied, steps)) :
    Operator.Explains .and applied.payload applied.result := by
  obtain ⟨terms, _, _, -, h, -⟩ := Recorded.bind_eq_ok h
  obtain ⟨seen, _, _, hseen, h, -⟩ := Recorded.bind_eq_ok h
  cases h
  exact .and fun v hv => by simpa using not_stop_of_runUntil hseen v hv

theorem explains_of_disjunction (h : disjunction arguments place = .ok (applied, steps)) :
    Operator.Explains .or applied.payload applied.result := by
  obtain ⟨terms, _, _, -, h, -⟩ := Recorded.bind_eq_ok h
  obtain ⟨seen, _, _, hseen, h, -⟩ := Recorded.bind_eq_ok h
  cases h
  exact .or (not_stop_of_runUntil hseen)

theorem explains_of_negation (h : negation arguments place = .ok (applied, steps)) :
    Operator.Explains .not applied.payload applied.result := by
  unfold negation at h
  split at h
  case h_2 => cases h
  all_goals
    rw [Recorded.pure_bind] at h
    obtain ⟨v, _, _, -, h, -⟩ := Recorded.bind_eq_ok h
    cases h
    exact .not v

theorem explains_of_ifElse (h : ifElse arguments place = .ok (applied, steps)) :
    Operator.Explains .ifElse applied.payload applied.result := by
  obtain ⟨terms, _, _, -, h, -⟩ := Recorded.bind_eq_ok h
  split at h
  · cases h
  · obtain ⟨⟨v, records⟩, _, _, hchain, h, -⟩ := Recorded.bind_eq_ok h
    cases h
    exact explains_of_chooseBranch hchain

theorem explains_of_membership (h : membership arguments place = .ok (applied, steps)) :
    Operator.Explains .membership applied.payload applied.result := by
  obtain ⟨_, _, _, -, h, -⟩ := Recorded.bind_eq_ok h
  obtain ⟨needle, _, _, -, h, -⟩ := Recorded.bind_eq_ok h
  obtain ⟨haystack, _, _, -, h, -⟩ := Recorded.bind_eq_ok h
  obtain ⟨found, _, _, hfound, h, -⟩ := Recorded.bind_eq_ok h
  cases h
  exact .membership (Recorded.eq_some_of_ofOption hfound)

theorem explains_of_missing (h : missing arguments place = .ok (applied, steps)) :
    Operator.Explains .missing applied.payload applied.result := by
  obtain ⟨terms, _, _, -, h, -⟩ := Recorded.bind_eq_ok h
  obtain ⟨counted, _, _, -, h, -⟩ := Recorded.bind_eq_ok h
  cases h
  exact .missing ..

theorem explains_of_missingSome (h : missingSome arguments place = .ok (applied, steps)) :
    Operator.Explains .missingSome applied.payload applied.result := by
  obtain ⟨_, _, _, -, h, -⟩ := Recorded.bind_eq_ok h
  obtain ⟨_, _, _, -, h, -⟩ := Recorded.bind_eq_ok h
  obtain ⟨required, _, _, -, h, -⟩ := Recorded.bind_eq_ok h
  obtain ⟨keys, _, _, -, h, -⟩ := Recorded.bind_eq_ok h
  obtain ⟨⟨present, absent⟩, _, _, -, h, -⟩ := Recorded.bind_eq_ok h
  cases h
  dsimp only
  split
  · exact .missingSome required absent
  · exact .missingSome required []

theorem explains_of_equal (h : equal arguments place = .ok (applied, steps)) :
    Operator.Explains .equal applied.payload applied.result := by
  obtain ⟨terms, _, _, -, h, -⟩ := Recorded.bind_eq_ok h
  obtain ⟨seen, _, _, -, h, -⟩ := Recorded.bind_eq_ok h
  rcases seen with _ | ⟨first, rest⟩
  · cases h
  · cases h
    exact .equal first rest

theorem explains_of_notEqual (h : notEqual arguments place = .ok (applied, steps)) :
    Operator.Explains .notEqual applied.payload applied.result := by
  obtain ⟨terms, _, _, -, h, -⟩ := Recorded.bind_eq_ok h
  obtain ⟨seen, _, _, -, h, -⟩ := Recorded.bind_eq_ok h
  rcases seen with _ | ⟨first, _ | ⟨second, rest⟩⟩
  · cases h
  · cases h
  · cases h
    exact .notEqual first second rest

theorem explains_of_quantification {q : Quantifier}
    (h : quantification q arguments place = .ok (applied, steps)) :
    Operator.Explains (.quantify q) applied.payload applied.result := by
  obtain ⟨_, _, _, -, h, -⟩ := Recorded.bind_eq_ok h
  obtain ⟨sequence, _, _, -, h, -⟩ := Recorded.bind_eq_ok h
  obtain ⟨elements, _, _, -, h, -⟩ := Recorded.bind_eq_ok h
  obtain ⟨⟨answer, records⟩, _, _, hscan, h, -⟩ := Recorded.bind_eq_ok h
  cases h
  obtain ⟨seen, rfl, rfl, hpasses⟩ := exists_seen_of_scanElements hscan
  exact .quantify hpasses

end Rule

open Rule in
/-- **Every operator says what its result follows from**, whatever its arguments are. -/
theorem Operator.explains_of_apply {operator : Operator} {arguments : Arguments} {place : Place}
    {applied : Applied} {children : List TraceStep}
    (h : operator.apply arguments place = .ok (applied, children)) :
    operator.Explains applied.payload applied.result := by
  rcases operator with _ | _ | _ | _ | _ | _ | _ | _ | _ | _ | c | _ | _ | _ | _ | m | q
  case var => exact explains_of_var h
  case and => exact explains_of_conjunction h
  case or => exact explains_of_disjunction h
  case not => exact explains_of_negation h
  case ifElse => exact explains_of_ifElse h
  case membership => exact explains_of_membership h
  case missing => exact explains_of_missing h
  case missingSome => exact explains_of_missingSome h
  case equal => exact explains_of_equal h
  case notEqual => exact explains_of_notEqual h
  case compare => exact explains_of_onNumbers explains_of_comparison h
  case add => exact explains_of_onNumbers explains_of_sum h
  case subtract => exact explains_of_onNumbers explains_of_difference h
  case multiply => exact explains_of_onNumbers explains_of_product h
  case divide => exact explains_of_onNumbers explains_of_quotient h
  case extremum => exact explains_of_onNumbers explains_of_extremum h
  case quantify => exact explains_of_quantification h

/-! ## What holds of every step -/

section EveryStep

variable {holds : TraceStep → Prop}

/-- **What holds of the steps of all sub-expressions** holds of those of a script. -/
theorem Script.forall_step {α : Type} {sub? : Move → Option Value} {left : Move → Prop}
    {x : String → Recorded α} (h : Script sub? left x)
    (hinner : ∀ m inner, sub? m = some inner → ∀ place v steps,
      inner.run place = .ok (v, steps) → ∀ s ∈ listAll steps, holds s)
    {path : String} {a : α} {steps : List TraceStep} (hok : x path = .ok (a, steps)) :
    ∀ s ∈ listAll steps, holds s := by
  induction h generalizing steps with
  | gives a =>
    cases hok
    exact List.forall_mem_nil _
  | faults own => cases hok
  | @runs left m e context next _ leads _ ih =>
    obtain ⟨v, before, after, hrun, hnext, rfl⟩ := Recorded.bind_eq_ok hok
    rw [listAll_append, List.forall_mem_append]
    exact ⟨hinner m e leads _ _ _ hrun, ih v hnext⟩

/-- **What holds of every step that an operator makes** holds of every step of a trace. -/
theorem Value.forall_step_of_run
    (hstep : ∀ operator arguments place applied children,
      Operator.apply operator arguments place = .ok (applied, children) →
        holds ⟨place.path, operator.name, applied.result, some applied.payload, children⟩)
    (e : Value) : ∀ place v steps, e.run place = .ok (v, steps) → ∀ s ∈ listAll steps, holds s := by
  induction e using Value.moveInduction with
  | h e ih =>
    intro place v steps hok
    cases e using Value.expressionCases with
    | literal e hliteral =>
      rw [Value.run_literal hliteral] at hok
      cases hok
      exact List.forall_mem_nil _
    | array items => exact (Value.script_run_array items place.context).forall_step ih hok
    | node name argument =>
      rw [Value.run_node] at hok
      obtain ⟨operator, payload, children, hname, happly, rfl⟩ := runNamed_eq_ok hok
      have hscript := Operator.script_apply (Rule.inNode hname argument) place.context
      rw [listAll, listAll, List.append_nil, listing_eq, List.forall_mem_cons]
      refine ⟨?_, hscript.forall_step ih happly⟩
      rw [← Operator.name_of_ofName? hname]
      exact hstep operator _ place _ children happly
    | malformed entries hlength =>
      rw [Value.run_malformed hlength] at hok
      cases hok

end EveryStep

/-- **Every step of a trace explains its own result.**  Of a step at any depth, what it says it
computed its result from is there and is not `null`; the result follows from that by the rule of its
operator; and no other result does. -/
theorem explained_of_evaluate (e c : Value) (outcome : Evaluation)
    (h : evaluate e c = .ok outcome) :
    ∀ s ∈ listAll outcome.trace, ∃ operator payload,
      s.operator = Operator.name operator ∧ s.arguments = some payload ∧ payload ≠ .null ∧
        operator.Explains payload s.result ∧
          ∀ result, operator.Explains payload result → result = s.result := by
  refine Value.forall_step_of_run (fun operator arguments place applied children happly => ?_) e _ _
    _ (evaluate_ok_iff.mp h)
  have hexplains := Operator.explains_of_apply happly
  exact ⟨operator, applied.payload, rfl, rfl, hexplains.payload_ne_null, hexplains,
    fun result hresult => hresult.result_eq hexplains⟩

/-- A chain that passes over one condition and takes the branch of the next, which is decided by the
second of three elements. -/
theorem explained_of_evaluate_chain :
    let e : Value := .object [("if", .array [.object [("var", .string "a")], .string "passed over",
      .object [("bl_any", .array [.array [.null, .bool true, .null],
        .object [("var", .string "item")]])],
      .object [("missing", .array [.string "a", .string "b"])]])]
    let c : Value := .object [("a", .bool false)]
    ∃ outcome, evaluate e c = .ok outcome ∧ (listAll outcome.trace).length = 6 ∧
      ∀ s ∈ listAll outcome.trace, ∃ operator payload,
        s.operator = Operator.name operator ∧ s.arguments = some payload ∧ payload ≠ .null ∧
          operator.Explains payload s.result ∧
            ∀ result, operator.Explains payload result → result = s.result := by
  intro e c
  obtain ⟨outcome, h, hlength⟩ :
      ∃ outcome, evaluate e c = .ok outcome ∧ (listAll outcome.trace).length = 6 := ⟨_, rfl, rfl⟩
  exact ⟨outcome, h, hlength, explained_of_evaluate e c outcome h⟩

end DecisionRules
