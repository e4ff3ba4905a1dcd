import DecisionRules.Proofs.Rule.Congruence
import DecisionRules.Proofs.Value.Related

/-!
# Proofs/Rule/Likeness — two runs at once, whatever they are compared by

A likeness relates what two runs come upon: values, numbers, sub-expressions, whole computations.
What it must satisfy (`Likeness`) is about values and single steps: of values that are alike, both
count as true or neither does, and what a path leads to is alike again; and steps that are alike may
be taken one after the other.

Operators do not leave a likeness then: what they make of arguments that are alike is alike
(`Likeness.apply_alike`).  There is one lemma for each loop over arguments and one for each
operator.  What is computed from numbers is a matter of each likeness (`Likeness.Arithmetic`), and
so is what is found in a value (`Likeness.Contents`), which is not asked for where neither a search
nor a quantifier is run (`Likeness.apply_alike_of_ne`).
-/

namespace DecisionRules

/-- **When two runs are alike**: a relation for each kind of thing that they come upon, and the laws
that operators rely on. -/
structure Likeness where
  /-- Contexts, and what expressions come to. -/
  value : Value → Value → Prop
  number : Float → Float → Prop
  /-- Sub-expressions as they are written. -/
  written : Value → Value → Prop
  /-- What is shown in the trace. -/
  shown : Value → Value → Prop
  term : Term → Term → Prop
  arguments : Arguments → Arguments → Prop
  applied : Applied → Applied → Prop
  /-- Computations, whose results are in a relation. -/
  run {α β : Type} : (α → β → Prop) → Recorded α → Recorded β → Prop
  run_pure {α β : Type} {R : α → β → Prop} {a b} : R a b → run R (pure a) (pure b)
  run_fail {α β : Type} {R : α → β → Prop} (err) : run R (.fail err) (.fail err)
  run_bind {α β γ δ : Type} {R : α → β → Prop} {S : γ → δ → Prop} {x y f g} :
    run R x y → (∀ a b, R a b → run S (f a) (g b)) → run S (x >>= f) (y >>= g)
  value_refl {v} : v.WellFormed → value v v
  value_array {xs ys} : List.Forall₂ value xs ys → value (.array xs) (.array ys)
  truthy_eq {v w} : value v w → v.truthy = w.truthy
  isNull_eq {v w} : value v w → v.isNull = w.isNull
  beq_eq {v w v' w'} : value v w → value v' w' → (v == v') = (w == w')
  asNumber_alike {v w} : value v w → ∀ operator,
    run number (asNumber operator v) (asNumber operator w)
  resolve {v w} : value v w → ∀ path, Option.Rel value (v.resolve path) (w.resolve path)
  bindItem_alike {c d v w} : value c d → value v w → ∀ i,
    value (Rule.bindItem c v i) (Rule.bindItem d w i)
  ofInt_lt_iff {x y} : number x y → ∀ n, Binary64.ofInt n < x ↔ Binary64.ofInt n < y
  string?_eq {v w} : written v w → v.string? = w.string?
  written_isNull_eq {v w} : written v w → v.isNull = w.isNull
  items? {v w} : written v w → Option.Rel (List.Forall₂ written) v.items? w.items?
  shown_number {x y} : number x y → shown (.number x) (.number y)
  shown_value {v w} : value v w → shown v w
  shown_written {v w} : written v w → shown v w
  shown_array {xs ys} : List.Forall₂ shown xs ys → shown (.array xs) (.array ys)
  shown_object {xs ys : List (String × Value)} : (xs.map Prod.fst).Nodup →
    List.Forall₂ (fun p q => p.1 = q.1 ∧ shown p.2 q.2) xs ys → shown (.object xs) (.object ys)
  term_written {t u} : term t u → written t.written u.written
  term_run {t u} : term t u → ∀ {c d}, value c d → ∀ path, run value (t.run ⟨c, path⟩)
    (u.run ⟨d, path⟩)
  arguments_cases {a b} : arguments a b →
    (∃ ts us, a = .list ts ∧ b = .list us ∧ List.Forall₂ term ts us) ∨
      ∃ t u, a = .bare t ∧ b = .bare u ∧ term t u
  applied_mk {v w payload payload'} : value v w → shown payload payload' →
    payload.isNull = false → applied ⟨v, payload⟩ ⟨w, payload'⟩

namespace Rule

/-! ## What is computed from numbers

It is a number or a truth value, so no key is repeated in it. -/

section Computed

variable {numbers : List Float} {v : Value}

theorem wellFormed_comparison {r : Comparison} (h : comparison r numbers = .ok v) :
    v.WellFormed := by
  unfold comparison at h
  split at h <;> cases h
  trivial

theorem wellFormed_sum (h : sum numbers = .ok v) : v.WellFormed := by
  cases h
  trivial

theorem wellFormed_product (h : product numbers = .ok v) : v.WellFormed := by
  cases h
  trivial

theorem wellFormed_difference (h : difference numbers = .ok v) : v.WellFormed := by
  unfold difference at h
  split at h <;> cases h <;> trivial

theorem wellFormed_quotient (h : quotient numbers = .ok v) : v.WellFormed := by
  rcases numbers with _ | ⟨first, _ | ⟨second, rest⟩⟩
  · cases h
  · cases h
  · rw [quotient] at h
    rcases hdivided : divideBy first (second :: rest) with err | x
    · rw [hdivided] at h
      cases h
    · rw [hdivided] at h
      cases h
      trivial

theorem wellFormed_extremum {x : Extremum} (h : Rule.extremum x numbers = .ok v) :
    v.WellFormed := by
  unfold Rule.extremum at h
  split at h <;> cases h
  trivial

end Computed

end Rule

namespace Likeness

open Rule

variable (L : Likeness) {c d : Value} {ts us : List Term} {args args' : Arguments}

/-! ## Arguments -/

theorem asList_alike (h : L.arguments args args') (operator : Operator) :
    L.run (List.Forall₂ L.term) (args.asList operator) (args'.asList operator) := by
  rcases L.arguments_cases h with ⟨ts, us, rfl, rfl, hterms⟩ | ⟨t, u, rfl, rfl, -⟩
  · exact L.run_pure hterms
  · exact L.run_fail _

theorem asPair_alike (h : L.arguments args args') (operator : Operator) (fault : ArgumentFault) :
    L.run (fun p q => L.term p.1 q.1 ∧ L.term p.2 q.2) (args.asPair operator fault)
      (args'.asPair operator fault) := by
  rcases L.arguments_cases h with ⟨ts, us, rfl, rfl, hterms⟩ | ⟨t, u, rfl, rfl, -⟩
  · cases hterms with
    | nil => exact L.run_fail _
    | cons hfirst hrest =>
      cases hrest with
      | nil => exact L.run_fail _
      | cons hsecond hrest =>
        cases hrest with
        | nil => exact L.run_pure ⟨hfirst, hsecond⟩
        | cons => exact L.run_fail _
  · exact L.run_fail _

/-- A sub-expression is a text on both sides, the same one, or on neither. -/
theorem asWrittenString_alike {v w : Value} (h : L.written v w) (operator : Operator)
    (what : String) :
    L.run Eq (asWrittenString operator what v) (asWrittenString operator what w) := by
  rw [asWrittenString, asWrittenString, L.string?_eq h]
  cases w.string? with
  | none => exact L.run_fail _
  | some text => exact L.run_pure rfl

theorem shown_refl {v : Value} (h : v.WellFormed) : L.shown v v := L.shown_value (L.value_refl h)

theorem hasAt_eq (h : L.value c d) (path : String) : c.hasAt path = d.hasAt path :=
  Value.hasAt_eq_of_rel (L.resolve h path) L.isNull_eq

/-! ## Loops over arguments -/

theorem runUntil_alike (h : L.value c d) {stop : Value → Bool}
    (hstop : ∀ v w, L.value v w → stop v = stop w) (path : String)
    (hterms : List.Forall₂ L.term ts us) (i : Nat) : L.run (List.Forall₂ L.value)
      (runUntil stop ⟨c, path⟩ i ts) (runUntil stop ⟨d, path⟩ i us) := by
  induction hterms generalizing i with
  | nil => exact L.run_pure .nil
  | cons hterm _ ih =>
    refine L.run_bind (L.term_run hterm h _) fun v w hvw => ?_
    rw [hstop v w hvw]
    split
    · exact L.run_pure (.cons hvw .nil)
    · exact L.run_bind (ih (i + 1)) fun _ _ hmore => L.run_pure (.cons hvw hmore)

theorem runEach_alike (h : L.value c d) (path : String) (hterms : List.Forall₂ L.term ts us)
    (i : Nat) : L.run (List.Forall₂ L.value) (runEach ⟨c, path⟩ i ts) (runEach ⟨d, path⟩ i us) :=
  L.runUntil_alike h (fun _ _ _ => rfl) path hterms i

theorem runNumbers_alike (h : L.value c d) (operator : Operator) (path : String)
    (hterms : List.Forall₂ L.term ts us) (i : Nat) : L.run (List.Forall₂ L.number)
      (runNumbers operator ⟨c, path⟩ i ts) (runNumbers operator ⟨d, path⟩ i us) := by
  induction hterms generalizing i with
  | nil => exact L.run_pure .nil
  | cons hterm _ ih =>
    refine L.run_bind (L.term_run hterm h _) fun v w hvw => ?_
    refine L.run_bind (L.asNumber_alike hvw operator) fun x y hxy => ?_
    exact L.run_bind (ih (i + 1)) fun xs ys hmore => L.run_pure (.cons hxy hmore)

theorem chooseBranch_alike (h : L.value c d) (path : String) :
    ∀ {ts us : List Term}, List.Forall₂ L.term ts us → ∀ k,
      L.run (fun p q => L.value p.1 q.1 ∧ List.Forall₂ L.shown p.2 q.2)
        (chooseBranch ⟨c, path⟩ k ts) (chooseBranch ⟨d, path⟩ k us)
  | [], _, .nil, _ => by
    have hnull : L.shown (.object [("default", .null)]) (.object [("default", .null)]) :=
      L.shown_object (by simp) (.cons ⟨rfl, L.shown_refl trivial⟩ .nil)
    exact L.run_pure ⟨L.value_refl trivial, .cons hnull .nil⟩
  | [_], _, .cons hlast .nil, _ => by
    refine L.run_bind (L.term_run hlast h _) fun v w hvw => L.run_pure ⟨hvw, .cons ?_ .nil⟩
    exact L.shown_object (by simp) (.cons ⟨rfl, L.shown_value hvw⟩ .nil)
  | _ :: _ :: _, _, .cons hcondition (.cons hbranch hrest), k => by
    refine L.run_bind (L.term_run hcondition h _) fun v w hvw => ?_
    rw [L.truthy_eq hvw]
    split
    · refine L.run_bind (L.term_run hbranch h _) fun _ _ hresult =>
        L.run_pure ⟨hresult, .cons (L.shown_object (by simp) ?_) .nil⟩
      exact .cons ⟨rfl, L.shown_value hvw⟩ (.cons ⟨rfl, L.shown_value hresult⟩ .nil)
    · refine L.run_bind (chooseBranch_alike h path hrest (k + 1)) fun _ _ hchosen => ?_
      refine L.run_pure ⟨hchosen.1, .cons (L.shown_object (by simp) ?_) hchosen.2⟩
      exact .cons ⟨rfl, L.shown_value hvw⟩ .nil

theorem scanElements_alike (h : L.value c d) (q : Quantifier) {t u : Term}
    (hpredicate : L.term t u) (path : String) {xs ys : List Value}
    (helements : List.Forall₂ L.value xs ys) (i : Nat) :
    L.run (fun p q => p.1 = q.1 ∧ List.Forall₂ L.shown p.2 q.2)
      (scanElements q t ⟨c, path⟩ i xs) (scanElements q u ⟨d, path⟩ i ys) := by
  induction helements generalizing i with
  | nil => exact L.run_pure ⟨rfl, .nil⟩
  | @cons item item' xs ys hitem _ ih =>
    have hbound := L.bindItem_alike h hitem i
    refine L.run_bind (L.term_run hpredicate hbound _) fun v w hvw => ?_
    have hrecord : L.shown (.object [("index", .ofInt i), ("item", item), ("result", v)])
        (.object [("index", .ofInt i), ("item", item'), ("result", w)]) :=
      L.shown_object (by simp) (.cons ⟨rfl, L.shown_refl trivial⟩
        (.cons ⟨rfl, L.shown_value hitem⟩ (.cons ⟨rfl, L.shown_value hvw⟩ .nil)))
    rw [L.truthy_eq hvw]
    split
    · exact L.run_pure ⟨rfl, .cons hrecord .nil⟩
    · exact L.run_bind (ih (i + 1)) fun _ _ hanswer =>
        L.run_pure ⟨hanswer.1, .cons hrecord hanswer.2⟩

/-- The same paths lead nowhere, and they are texts. -/
theorem presence_alike (h : L.value c d) (operator : Operator) {keys keys' : List Value}
    (hkeys : List.Forall₂ L.written keys keys') :
    L.run (fun p q => p.1 = q.1 ∧ List.Forall₂ L.value p.2 q.2) (presence operator c keys)
      (presence operator d keys') := by
  induction hkeys with
  | nil => exact L.run_pure ⟨rfl, .nil⟩
  | cons hkey _ ih =>
    refine L.run_bind (L.asWrittenString_alike hkey operator _) fun path _ hpath => ?_
    subst hpath
    refine L.run_bind ih ?_
    rintro ⟨present, absent⟩ ⟨_, absent'⟩ ⟨rfl, habsent⟩
    dsimp only
    rw [L.hasAt_eq h path]
    split
    · exact L.run_pure ⟨rfl, habsent⟩
    · exact L.run_pure ⟨rfl, .cons (L.value_refl trivial) habsent⟩

/-! ## Operators -/

theorem varTarget_alike (h : L.arguments args args') :
    L.run (fun p q => p.1 = q.1 ∧ Option.Rel L.term p.2 q.2) (varTarget args)
      (varTarget args') := by
  rcases L.arguments_cases h with ⟨ts, us, rfl, rfl, hterms⟩ | ⟨t, u, rfl, rfl, hterm⟩
  · cases hterms with
    | nil => exact L.run_pure ⟨rfl, .none⟩
    | cons hfirst hrest =>
      have hwritten := L.asWrittenString_alike (L.term_written hfirst) .var "path"
      refine L.run_bind hwritten fun path _ hpath => L.run_pure ⟨hpath, ?_⟩
      cases hrest with
      | nil => exact .none
      | cons hstandIn _ => exact .some hstandIn
  · have hwritten := L.term_written hterm
    have hnull := L.written_isNull_eq hwritten
    change L.run _ (varTarget (.bare t.written.asTerm)) (varTarget (.bare u.written.asTerm))
    rcases ht : t.written.isNull with _ | _
    · rw [varTarget_bare ht, varTarget_bare (hnull ▸ ht)]
      exact L.run_bind (L.asWrittenString_alike hwritten .var "path") fun _ _ hpath =>
        L.run_pure ⟨hpath, .none⟩
    · have hleft : t.written = .null := Value.eq_null_of_isNull ht
      have hright : u.written = .null := Value.eq_null_of_isNull (hnull ▸ ht)
      rw [hleft, hright]
      exact L.run_pure ⟨rfl, .none⟩

theorem var_alike (h : L.value c d) (hargs : L.arguments args args') (path : String) :
    L.run L.applied (var args ⟨c, path⟩) (var args' ⟨d, path⟩) := by
  refine L.run_bind (L.varTarget_alike hargs) ?_
  rintro ⟨written, t⟩ ⟨_, u⟩ ⟨rfl, hstandIn⟩
  have hexplained {v w : Value} (hvw : L.value v w) (defaulted : Bool) : L.applied
      ⟨v, .object [("path", .string written), ("value", v), ("default_used", .bool defaulted)]⟩
      ⟨w, .object [("path", .string written), ("value", w), ("default_used", .bool defaulted)]⟩ :=
    L.applied_mk hvw (L.shown_object (by simp) (.cons ⟨rfl, L.shown_refl trivial⟩
      (.cons ⟨rfl, L.shown_value hvw⟩ (.cons ⟨rfl, L.shown_refl trivial⟩ .nil)))) rfl
  have hfound := L.resolve h written
  dsimp only at hstandIn ⊢
  generalize c.resolve written = a at hfound
  generalize d.resolve written = b at hfound
  cases hfound with
  | some hab => exact L.run_pure (hexplained hab false)
  | none =>
    cases hstandIn with
    | none => exact L.run_pure (hexplained (L.value_refl (v := .null) trivial) false)
    | some hterm =>
      exact L.run_bind (L.term_run hterm h _) fun _ _ hvw => L.run_pure (hexplained hvw true)

theorem untilDecided_alike (h : L.value c d) (hargs : L.arguments args args')
    (operator : Operator) {decides : Value → Bool}
    (hdecides : ∀ v w, L.value v w → decides v = decides w) (vacuous : Bool) (path : String) :
    L.run L.applied (untilDecided operator decides vacuous args ⟨c, path⟩)
      (untilDecided operator decides vacuous args' ⟨d, path⟩) := by
  refine L.run_bind (L.asList_alike hargs operator) fun ts us hterms => ?_
  refine L.run_bind (L.runUntil_alike h hdecides path hterms 0) fun vs ws hseen => ?_
  refine L.run_pure (L.applied_mk ?_ (L.shown_value (L.value_array hseen)) rfl)
  have hlast := rel_getLast? hseen
  generalize vs.getLast? = a at hlast
  generalize ws.getLast? = b at hlast
  cases hlast with
  | none => exact L.value_refl (v := .bool vacuous) trivial
  | some hvw => exact hvw

theorem negation_alike (h : L.value c d) (hargs : L.arguments args args') (path : String) :
    L.run L.applied (negation args ⟨c, path⟩) (negation args' ⟨d, path⟩) := by
  have hone {t u : Term} (hterm : L.term t u) : L.run L.applied
      (t.run ⟨c, (Place.child ⟨c, path⟩ (.argument 0)).path⟩ >>= fun value =>
        pure ⟨.bool (!value.truthy), .array [value]⟩)
      (u.run ⟨d, (Place.child ⟨c, path⟩ (.argument 0)).path⟩ >>= fun value =>
        pure ⟨.bool (!value.truthy), .array [value]⟩) :=
    L.run_bind (L.term_run hterm h _) fun v w hvw => L.run_pure <| by
      rw [L.truthy_eq hvw]
      exact L.applied_mk (L.value_refl trivial) (L.shown_value (L.value_array (.cons hvw .nil))) rfl
  unfold negation
  rcases L.arguments_cases hargs with ⟨ts, us, rfl, rfl, hterms⟩ | ⟨t, u, rfl, rfl, hterm⟩
  · cases hterms with
    | nil => exact L.run_fail _
    | cons hterm hrest =>
      cases hrest with
      | nil =>
        simp only [Recorded.pure_bind]
        exact hone hterm
      | cons => exact L.run_fail _
  · simp only [Recorded.pure_bind]
    exact hone hterm

theorem ifElse_alike (h : L.value c d) (hargs : L.arguments args args') (path : String) :
    L.run L.applied (ifElse args ⟨c, path⟩) (ifElse args' ⟨d, path⟩) := by
  refine L.run_bind (L.asList_alike hargs _) fun ts us hterms => ?_
  cases hterms with
  | nil => exact L.run_fail _
  | cons hterm hrest =>
    refine L.run_bind (L.chooseBranch_alike h path (.cons hterm hrest) 0) fun _ _ hchosen => ?_
    exact L.run_pure (L.applied_mk hchosen.1 (L.shown_array hchosen.2) rfl)

theorem missing_alike (h : L.value c d) (hargs : L.arguments args args') (path : String) :
    L.run L.applied (missing args ⟨c, path⟩) (missing args' ⟨d, path⟩) := by
  refine L.run_bind (L.asList_alike hargs _) fun ts us hterms => ?_
  have hkeys : List.Forall₂ L.written (ts.map (·.written)) (us.map (·.written)) := by
    rw [List.forall₂_map_left_iff, List.forall₂_map_right_iff]
    exact hterms.imp fun _ _ => L.term_written
  refine L.run_bind (L.presence_alike h _ hkeys) fun p q hpq => L.run_pure ?_
  have habsent := L.value_array hpq.2
  have hshown := L.shown_array (hkeys.imp fun _ _ => L.shown_written)
  exact L.applied_mk habsent (L.shown_object (by simp)
    (.cons ⟨rfl, hshown⟩ (.cons ⟨rfl, L.shown_value habsent⟩ .nil))) rfl

theorem missingSome_alike (h : L.value c d) (hargs : L.arguments args args') (path : String) :
    L.run L.applied (missingSome args ⟨c, path⟩) (missingSome args' ⟨d, path⟩) := by
  refine L.run_bind (L.asPair_alike hargs _ _) ?_
  rintro ⟨threshold, keys⟩ ⟨threshold', keys'⟩ ⟨hthreshold, hkeys⟩
  refine L.run_bind (L.term_run hthreshold h _) fun v w hvw => ?_
  refine L.run_bind (L.asNumber_alike hvw _) fun x y hxy => ?_
  have hitems := L.items? (L.term_written hkeys)
  dsimp only at hitems ⊢
  generalize keys.written.items? = a at hitems
  generalize keys'.written.items? = b at hitems
  cases hitems with
  | none => exact L.run_fail _
  | some hitems =>
    change L.run _ (pure _ >>= _) (pure _ >>= _)
    rw [Recorded.pure_bind, Recorded.pure_bind]
    refine L.run_bind (L.presence_alike h _ hitems) ?_
    rintro ⟨present, absent⟩ ⟨_, absent'⟩ ⟨rfl, habsent⟩
    have hresult : L.value (if Binary64.ofInt present < x then .array absent else .array [])
        (if Binary64.ofInt present < y then .array absent' else .array []) := by
      simp only [L.ofInt_lt_iff hxy]
      split
      · exact L.value_array habsent
      · exact L.value_refl trivial
    exact L.run_pure (L.applied_mk hresult (L.shown_object (by simp)
      (.cons ⟨rfl, L.shown_number hxy⟩ (.cons ⟨rfl, L.shown_value hresult⟩ .nil))) rfl)

theorem equal_alike (h : L.value c d) (hargs : L.arguments args args') (path : String) :
    L.run L.applied (equal args ⟨c, path⟩) (equal args' ⟨d, path⟩) := by
  refine L.run_bind (L.asList_alike hargs _) fun ts us hterms => ?_
  refine L.run_bind (L.runEach_alike h path hterms 0) fun vs ws hseen => ?_
  cases hseen with
  | nil => exact L.run_fail _
  | @cons v w vs ws hfirst hrest =>
    have hall : vs.all (· == v) = ws.all (· == w) :=
      all_eq_of_forall₂ hrest fun _ _ hvw => L.beq_eq hvw hfirst
    dsimp only
    rw [hall]
    exact L.run_pure (L.applied_mk (L.value_refl trivial)
      (L.shown_value (L.value_array (.cons hfirst hrest))) rfl)

theorem notEqual_alike (h : L.value c d) (hargs : L.arguments args args') (path : String) :
    L.run L.applied (notEqual args ⟨c, path⟩) (notEqual args' ⟨d, path⟩) := by
  refine L.run_bind (L.asList_alike hargs _) fun ts us hterms => ?_
  refine L.run_bind (L.runEach_alike h path hterms 0) fun vs ws hseen => ?_
  cases hseen with
  | nil => exact L.run_fail _
  | @cons v w vs ws hfirst hrest =>
    have hany : vs.any (fun x => !(x == v)) = ws.any (fun x => !(x == w)) :=
      any_eq_of_forall₂ hrest fun _ _ hvw => congrArg (!·) (L.beq_eq hvw hfirst)
    have hshown := L.shown_value (L.value_array (.cons hfirst hrest))
    cases hrest with
    | nil => exact L.run_fail _
    | cons =>
      dsimp only
      rw [hany]
      exact L.run_pure (L.applied_mk (L.value_refl trivial) hshown rfl)

/-! ### Operators on numbers -/

/-- What is computed from numbers that are alike is alike, or cannot be computed for the same
reason. -/
def ComputesAlike (compute : List Float → Except EvalError Value) : Prop :=
  ∀ xs ys, List.Forall₂ L.number xs ys →
    (∃ err, compute xs = .error err ∧ compute ys = .error err) ∨
      ∃ v w, compute xs = .ok v ∧ compute ys = .ok w ∧ L.value v w

/-- All that operators compute from numbers. -/
structure Arithmetic : Prop where
  comparison (r : Comparison) : L.ComputesAlike (comparison r)
  sum : L.ComputesAlike sum
  difference : L.ComputesAlike difference
  product : L.ComputesAlike product
  quotient : L.ComputesAlike quotient
  extremum (m : Extremum) : L.ComputesAlike (Rule.extremum m)

/-- Numbers that are alike only if they are the same are computed with alike. -/
theorem arithmetic_of_eq {L : Likeness} (h : ∀ x y, L.number x y → x = y) : L.Arithmetic := by
  have hcompute {compute : List Float → Except EvalError Value}
      (hwellFormed : ∀ {numbers v}, compute numbers = .ok v → v.WellFormed) :
      L.ComputesAlike compute := by
    intro xs ys hnumbers
    obtain rfl : xs = ys := by
      rw [← List.forall₂_eq_eq_eq]
      exact hnumbers.imp h
    rcases hresult : compute xs with err | v
    · exact .inl ⟨err, rfl, rfl⟩
    · exact .inr ⟨v, v, rfl, rfl, L.value_refl (hwellFormed hresult)⟩
  exact ⟨fun _ => hcompute wellFormed_comparison, hcompute wellFormed_sum,
    hcompute wellFormed_difference, hcompute wellFormed_product, hcompute wellFormed_quotient,
    fun _ => hcompute wellFormed_extremum⟩

theorem onNumbers_alike (h : L.value c d) (hargs : L.arguments args args') (operator : Operator)
    {compute : List Float → Except EvalError Value} (hcompute : L.ComputesAlike compute)
    (path : String) : L.run L.applied (onNumbers operator compute args ⟨c, path⟩)
      (onNumbers operator compute args' ⟨d, path⟩) := by
  refine L.run_bind (L.asList_alike hargs _) fun ts us hterms => ?_
  refine L.run_bind (L.runNumbers_alike h operator path hterms 0) fun xs ys hnumbers => ?_
  have hshown : L.shown (numbersPayload xs) (numbersPayload ys) := by
    refine L.shown_array ?_
    rw [List.forall₂_map_left_iff, List.forall₂_map_right_iff]
    exact hnumbers.imp fun _ _ => L.shown_number
  obtain ⟨err, hx, hy⟩ | ⟨v, w, hx, hy, hvw⟩ := hcompute xs ys hnumbers
  · rw [hx, hy]
    exact L.run_fail err
  · rw [hx, hy]
    exact L.run_pure (L.applied_mk hvw hshown rfl)

/-- **What operators make of arguments that are alike is alike**, if they do not look into values
for others. -/
theorem apply_alike_of_ne (harithmetic : L.Arithmetic) (h : L.value c d)
    (hargs : L.arguments args args') {operator : Operator} (hmembership : operator ≠ .membership)
    (hquantify : ∀ q, operator ≠ .quantify q) (path : String) :
    L.run L.applied (operator.apply args ⟨c, path⟩) (operator.apply args' ⟨d, path⟩) := by
  rcases operator with _ | _ | _ | _ | _ | _ | _ | _ | _ | _ | r | _ | _ | _ | _ | m | q
  case var => exact L.var_alike h hargs path
  case and =>
    exact L.untilDecided_alike h hargs _ (fun _ _ hvw => congrArg (!·) (L.truthy_eq hvw)) _ path
  case or => exact L.untilDecided_alike h hargs _ (fun _ _ hvw => L.truthy_eq hvw) _ path
  case not => exact L.negation_alike h hargs path
  case ifElse => exact L.ifElse_alike h hargs path
  case membership => exact absurd rfl hmembership
  case missing => exact L.missing_alike h hargs path
  case missingSome => exact L.missingSome_alike h hargs path
  case equal => exact L.equal_alike h hargs path
  case notEqual => exact L.notEqual_alike h hargs path
  case compare => exact L.onNumbers_alike h hargs _ (harithmetic.comparison r) path
  case add => exact L.onNumbers_alike h hargs _ harithmetic.sum path
  case subtract => exact L.onNumbers_alike h hargs _ harithmetic.difference path
  case multiply => exact L.onNumbers_alike h hargs _ harithmetic.product path
  case divide => exact L.onNumbers_alike h hargs _ harithmetic.quotient path
  case extremum => exact L.onNumbers_alike h hargs _ (harithmetic.extremum m) path
  case quantify => exact absurd rfl (hquantify q)

/-! ### Operators that look into values -/

/-- What operators find in values that are alike. -/
structure Contents : Prop where
  isIn_alike {v w v' w'} : L.value v w → L.value v' w' →
    L.run Eq (.ofOption (.invalidArguments .membership (.notSearchable v')) (isIn? v v'))
      (.ofOption (.invalidArguments .membership (.notSearchable w')) (isIn? w w'))
  elements_alike {v w} : L.value v w → ∀ q, L.run (List.Forall₂ L.value)
    (.ofOption (.invalidArguments (.quantify q) (.notIterable v)) (elements? v))
    (.ofOption (.invalidArguments (.quantify q) (.notIterable w)) (elements? w))

theorem membership_alike (hcontents : L.Contents) (h : L.value c d)
    (hargs : L.arguments args args') (path : String) :
    L.run L.applied (membership args ⟨c, path⟩) (membership args' ⟨d, path⟩) := by
  refine L.run_bind (L.asPair_alike hargs _ _) ?_
  rintro ⟨needle, haystack⟩ ⟨needle', haystack'⟩ ⟨hneedle, hhaystack⟩
  refine L.run_bind (L.term_run hneedle h _) fun v w hvw => ?_
  refine L.run_bind (L.term_run hhaystack h _) fun x y hxy => ?_
  refine L.run_bind (hcontents.isIn_alike hvw hxy) fun found _ hfound => ?_
  subst hfound
  exact L.run_pure (L.applied_mk (L.value_refl trivial) (L.shown_object (by simp)
    (.cons ⟨rfl, L.shown_value hvw⟩ (.cons ⟨rfl, L.shown_value hxy⟩ .nil))) rfl)

theorem quantification_alike (hcontents : L.Contents) (h : L.value c d)
    (hargs : L.arguments args args') (q : Quantifier) (path : String) :
    L.run L.applied (quantification q args ⟨c, path⟩) (quantification q args' ⟨d, path⟩) := by
  refine L.run_bind (L.asPair_alike hargs _ _) ?_
  rintro ⟨sequence, predicate⟩ ⟨sequence', predicate'⟩ ⟨hsequence, hpredicate⟩
  refine L.run_bind (L.term_run hsequence h _) fun v w hvw => ?_
  refine L.run_bind (hcontents.elements_alike hvw q) fun xs ys helements => ?_
  refine L.run_bind (L.scanElements_alike h q hpredicate path helements 0) ?_
  rintro ⟨answer, records⟩ ⟨_, records'⟩ ⟨rfl, hrecords⟩
  exact L.run_pure (L.applied_mk (L.value_refl trivial) (L.shown_array hrecords) rfl)

/-- **What operators make of arguments that are alike is alike.** -/
theorem apply_alike (harithmetic : L.Arithmetic) (hcontents : L.Contents) (h : L.value c d)
    (hargs : L.arguments args args') (operator : Operator) (path : String) :
    L.run L.applied (operator.apply args ⟨c, path⟩) (operator.apply args' ⟨d, path⟩) := by
  have hrest (hmembership : operator ≠ .membership) (hquantify : ∀ q, operator ≠ .quantify q) :=
    L.apply_alike_of_ne harithmetic h hargs hmembership hquantify path
  cases operator with
  | membership => exact L.membership_alike hcontents h hargs path
  | quantify q => exact L.quantification_alike hcontents h hargs q path
  | _ => exact hrest Operator.noConfusion fun _ => Operator.noConfusion

end Likeness

end DecisionRules
