import DecisionRules.Proofs.Rule.Expression
import DecisionRules.Proofs.Rule.KeyOrder

/-!
# Proofs/Rule/WellFormed — an evaluation repeats no key and explains every step

Where an expression and its context repeat no key in any object, neither does what evaluation makes
of them: the result, the results on the way, and what the steps of the trace give for reasons
(`evaluate_wellFormed`).  A reason is never `null`, which in a written trace would be no reason at
all: every operator gives an array or an object.

What repeats no key is alike to itself (`Likeness.wellFormed`), so operators make of it what repeats
none either; that is put together along the expression.
-/

namespace DecisionRules

/-! ## Well-formed steps -/

/-- A step in which no object repeats a key, and whose reason, if it has one, is not `null`. -/
structure TraceStep.WellFormed (s : TraceStep) : Prop where
  result : s.result.WellFormed
  arguments : ∀ v ∈ s.arguments, v.WellFormed
  ne_null : s.arguments ≠ some .null

/-- Every step of a forest is well-formed, at any depth. -/
def WellFormedTrace (trace : List TraceStep) : Prop :=
  ∀ s ∈ TraceStep.listAll trace, s.WellFormed

theorem WellFormedTrace.nil : WellFormedTrace [] := fun _ hs => absurd hs List.not_mem_nil

theorem WellFormedTrace.append {before after : List TraceStep} (hbefore : WellFormedTrace before)
    (hafter : WellFormedTrace after) : WellFormedTrace (before ++ after) := by
  intro s hs
  rw [TraceStep.listAll_append, List.mem_append] at hs
  exact hs.elim (hbefore s) (hafter s)

/-! ## Well-formed computations -/

namespace Recorded

variable {α β : Type} {P : α → Prop} {Q : β → Prop}

/-- What a computation gives, if it gives anything, has a property, and its steps are
well-formed. -/
def Gives (P : α → Prop) (x : Recorded α) : Prop :=
  ∀ a steps, x = .ok (a, steps) → P a ∧ WellFormedTrace steps

theorem Gives.pure {a : α} (h : P a) : Gives P (Pure.pure a) := by
  intro b steps hb
  obtain ⟨rfl, rfl⟩ := Prod.mk.inj (Except.ok.inj hb)
  exact ⟨h, .nil⟩

theorem Gives.fail (err : EvalError) : Gives P (Recorded.fail err) := nofun

/-- **One step after another**: what the first gives is what the second starts from. -/
theorem Gives.bind {x : Recorded α} {f : α → Recorded β} (hx : Gives P x)
    (hf : ∀ a, P a → Gives Q (f a)) : Gives Q (x >>= f) := by
  intro b steps hb
  obtain ⟨a, before, after, ha, hfa, rfl⟩ := bind_eq_ok hb
  obtain ⟨hpa, hbefore⟩ := hx a before ha
  obtain ⟨hqb, hafter⟩ := hf a hpa b after hfa
  exact ⟨hqb, hbefore.append hafter⟩

/-- Two computations that give related values by the same well-formed steps, or fail with the same
error. -/
inductive Coincide (R : α → β → Prop) : Recorded α → Recorded β → Prop
  | gives {a b steps} (h : R a b) (hsteps : WellFormedTrace steps) :
    Coincide R (.ok (a, steps)) (.ok (b, steps))
  | fails (err) : Coincide R (.error err) (.error err)

theorem Coincide.bind {γ δ : Type} {R : α → β → Prop} {S : γ → δ → Prop} {x : Recorded α}
    {y : Recorded β} {f : α → Recorded γ} {g : β → Recorded δ} (hx : Coincide R x y)
    (hf : ∀ a b, R a b → Coincide S (f a) (g b)) : Coincide S (x >>= f) (y >>= g) := by
  cases hx with
  | fails err => exact .fails err
  | @gives a b before h hbefore =>
    change Coincide S (andThen (.ok (a, before)) f) (andThen (.ok (b, before)) g)
    have hnext := hf a b h
    simp only [andThen]
    generalize f a = p at hnext
    generalize g b = q at hnext
    cases hnext with
    | fails err => exact .fails err
    | gives h hafter => exact .gives h (hbefore.append hafter)

/-- A computation coincides with itself where what it gives is related to itself. -/
theorem coincide_self_iff {x : Recorded α} : Coincide (fun a b => P a ∧ a = b) x x ↔ Gives P x := by
  rcases x with err | ⟨a, steps⟩
  · exact ⟨fun _ => .fail err, fun _ => .fails err⟩
  · refine ⟨fun h => ?_, fun h => ?_⟩
    · cases h with
      | gives ha hsteps =>
        rintro _ _ hsame
        cases hsame
        exact ⟨ha.1, hsteps⟩
    · obtain ⟨ha, hsteps⟩ := h a steps rfl
      exact .gives ⟨ha, rfl⟩ hsteps

end Recorded

open Recorded (Coincide Gives)

/-- A term that is written without repeated keys and gives values without any. -/
structure Term.WellFormed (t : Term) : Prop where
  written : t.written.WellFormed
  run : ∀ {context : Value}, context.WellFormed → ∀ path,
    Gives Value.WellFormed (t.run ⟨context, path⟩)

/-- Every argument of a node is well-formed. -/
def Arguments.WellFormed : Arguments → Prop
  | .list terms => ∀ t ∈ terms, t.WellFormed
  | .bare term => term.WellFormed

/-- What an operator gives, and its reason. -/
structure Applied.WellFormed (a : Applied) : Prop where
  result : a.result.WellFormed
  payload : a.payload.WellFormed
  ne_null : a.payload ≠ .null

/-! ## Values that operators make -/

namespace Rule

theorem wellFormed_array {items : List Value} (h : ∀ v ∈ items, v.WellFormed) :
    (Value.array items).WellFormed := Value.wellFormedItems_iff.mpr h

theorem wellFormed_object {entries : List (String × Value)} (hkeys : (entries.map Prod.fst).Nodup)
    (h : ∀ entry ∈ entries, entry.2.WellFormed) : (Value.object entries).WellFormed :=
  ⟨hkeys, Value.wellFormedEntries_iff.mpr h⟩

theorem wellFormed_bindItem {context item : Value} (hcontext : context.WellFormed)
    (hitem : item.WellFormed) (i : Nat) : (bindItem context item i).WellFormed :=
  (bindItem_alike (.refl hcontext) (.refl hitem) i).left

theorem wellFormed_of_resolve {context v : Value} {path : String} (hcontext : context.WellFormed)
    (h : context.resolve path = some v) : v.WellFormed := by
  have hfound := (Value.Alike.refl hcontext).resolve path
  rw [h] at hfound
  obtain ⟨w, -, hvw⟩ := exists_of_rel_some hfound
  exact hvw.left

theorem wellFormed_elements {sequence : Value} (h : sequence.WellFormed) {elements : List Value}
    (helements : elements? sequence = some elements) : ∀ v ∈ elements, v.WellFormed := by
  cases sequence with
  | array items =>
    obtain rfl := Option.some.inj helements
    exact Value.wellFormedItems_iff.mp h
  | object entries =>
    obtain rfl := Option.some.inj helements
    intro v hv
    obtain ⟨entry, -, rfl⟩ := List.mem_map.mp hv
    trivial
  | _ => cases helements

end Rule

/-! ## Operators -/

theorem forall₂_self_iff {α : Type} {P : α → Prop} {xs ys : List α} :
    List.Forall₂ (fun x y => P x ∧ x = y) xs ys ↔ (∀ x ∈ xs, P x) ∧ xs = ys := by
  rw [List.forall₂_and_left, List.forall₂_eq_eq_eq]

/-- **Everything is alike to itself** if it repeats no key. -/
def Likeness.wellFormed : Likeness where
  value v w := v.WellFormed ∧ v = w
  number := Eq
  written v w := v.WellFormed ∧ v = w
  shown v w := v.WellFormed ∧ v = w
  term t u := t.WellFormed ∧ t = u
  arguments a b := a.WellFormed ∧ a = b
  applied a b := a.WellFormed ∧ a = b
  run := Coincide
  run_pure h := .gives h .nil
  run_fail := .fails
  run_bind := .bind
  value_refl h := ⟨h, rfl⟩
  value_array h := by
    obtain ⟨hitems, rfl⟩ := forall₂_self_iff.mp h
    exact ⟨Rule.wellFormed_array hitems, rfl⟩
  truthy_eq h := congrArg Value.truthy h.2
  isNull_eq h := congrArg Value.isNull h.2
  beq_eq h h' := by rw [h.2, h'.2]
  asNumber_alike {v _} h operator := by
    obtain ⟨-, rfl⟩ := h
    cases v with
    | number x => exact .gives rfl .nil
    | _ => exact .fails _
  resolve {v _} h path := by
    obtain ⟨hv, rfl⟩ := h
    rcases hfound : v.resolve path with _ | found
    · exact .none
    · exact .some ⟨Rule.wellFormed_of_resolve hv hfound, rfl⟩
  bindItem_alike h hitem i := by
    obtain ⟨hcontext, rfl⟩ := h
    obtain ⟨hitem, rfl⟩ := hitem
    exact ⟨Rule.wellFormed_bindItem hcontext hitem i, rfl⟩
  ofInt_lt_iff := Likeness.unordered.ofInt_lt_iff
  string?_eq h := congrArg Value.string? h.2
  written_isNull_eq h := congrArg Value.isNull h.2
  items? {v _} h := by
    obtain ⟨hv, rfl⟩ := h
    cases v with
    | array items => exact .some (forall₂_self_iff.mpr ⟨Value.wellFormedItems_iff.mp hv, rfl⟩)
    | _ => exact .none
  shown_number h := ⟨trivial, congrArg Value.number h⟩
  shown_value := id
  shown_written := id
  shown_array h := by
    obtain ⟨hitems, rfl⟩ := forall₂_self_iff.mp h
    exact ⟨Rule.wellFormed_array hitems, rfl⟩
  shown_object hkeys h := by
    obtain ⟨hentries, rfl⟩ := forall₂_self_iff.mp <|
      h.imp fun p q hpq => (⟨hpq.2.1, Prod.ext hpq.1 hpq.2.2⟩ : p.2.WellFormed ∧ p = q)
    exact ⟨Rule.wellFormed_object hkeys hentries, rfl⟩
  term_written h := ⟨h.1.written, congrArg Term.written h.2⟩
  term_run h _ _ hcontext path := by
    obtain ⟨hterm, rfl⟩ := h
    obtain ⟨hcontext, rfl⟩ := hcontext
    exact Recorded.coincide_self_iff.mpr (hterm.run hcontext path)
  arguments_cases {a _} h := by
    obtain ⟨ha, rfl⟩ := h
    cases a with
    | list ts => exact .inl ⟨ts, ts, rfl, rfl, forall₂_self_iff.mpr ⟨ha, rfl⟩⟩
    | bare t => exact .inr ⟨t, t, rfl, rfl, ha, rfl⟩
  applied_mk {_ _ payload _} hresult hpayload hnull := by
    obtain ⟨hresult, rfl⟩ := hresult
    obtain ⟨hpayload, rfl⟩ := hpayload
    have hne : payload ≠ .null := by
      rintro rfl
      cases hnull
    exact ⟨⟨hresult, hpayload, hne⟩, rfl⟩

theorem Likeness.wellFormed_contents : Likeness.wellFormed.Contents where
  isIn_alike {v _ v' _} hneedle hhaystack := by
    obtain ⟨-, rfl⟩ := hneedle
    obtain ⟨-, rfl⟩ := hhaystack
    rcases Rule.isIn? v v' with _ | found
    · exact .fails _
    · exact .gives rfl .nil
  elements_alike {v _} h q := by
    obtain ⟨hv, rfl⟩ := h
    rcases helements : Rule.elements? v with _ | elements
    · exact .fails _
    · exact .gives (forall₂_self_iff.mpr ⟨Rule.wellFormed_elements hv helements, rfl⟩) .nil

/-- **Every operator gives what repeats no key, for a reason that is not `null`.** -/
theorem Operator.apply_gives {place : Place} {arguments : Arguments}
    (hcontext : place.context.WellFormed) (h : arguments.WellFormed) (operator : Operator) :
    Gives Applied.WellFormed (operator.apply arguments place) :=
  Recorded.coincide_self_iff.mp <| Likeness.wellFormed.apply_alike
    (Likeness.arithmetic_of_eq fun _ _ => id) Likeness.wellFormed_contents
    ⟨hcontext, rfl⟩ ⟨h, rfl⟩ operator place.path

/-! ## Expressions -/

/-- **A node leaves one step, with the reason of its operator**, above those of its arguments. -/
theorem runNamed_gives {place : Place} {arguments : Arguments} (hcontext : place.context.WellFormed)
    (h : arguments.WellFormed) (name : String) :
    Gives Value.WellFormed (runNamed name arguments place) := by
  intro v steps hv
  obtain ⟨operator, payload, children, -, happly, rfl⟩ := runNamed_eq_ok hv
  obtain ⟨happlied, hchildren⟩ := operator.apply_gives hcontext h _ _ happly
  refine ⟨happlied.result, fun s hs => ?_⟩
  simp only [TraceStep.listAll, TraceStep.listing, List.append_nil] at hs
  rcases List.mem_cons.mp hs with rfl | hs
  · exact ⟨happlied.result, fun w hw => Option.some.inj hw ▸ happlied.payload,
      fun hnull => happlied.ne_null (Option.some.inj hnull)⟩
  · exact hchildren s hs

namespace Value

mutual

theorem run_gives : ∀ {e : Value}, e.WellFormed → ∀ {context : Value}, context.WellFormed →
    ∀ path, Gives WellFormed (e.run ⟨context, path⟩)
  | .object [(name, argument)], he, context, hcontext, path => by
    have hargument : argument.WellFormed := he.2.1
    have hbare : Arguments.WellFormed (.bare ⟨argument, argument.run⟩) :=
      ⟨hargument, run_gives hargument⟩
    cases argument with
    | array items =>
      have hlist : Arguments.WellFormed (.list (terms items)) := terms_wellFormed hargument
      exact runNamed_gives hcontext hlist name
    | _ => exact runNamed_gives hcontext hbare name
  | .object [], _, _, _, _ => .fail _
  | .object ((_, argument) :: _ :: _), _, _, _, _ => by
    cases argument <;> exact .fail _
  | .array _, he, _, hcontext, path =>
    (runItems_gives he 0 hcontext path).bind fun _ hvalues => .pure (Rule.wellFormed_array hvalues)
  | .null, _, _, _, _ => .pure trivial
  | .bool _, _, _, _, _ => .pure trivial
  | .number _, _, _, _, _ => .pure trivial
  | .string _, _, _, _, _ => .pure trivial
  termination_by structural e => e

theorem runItems_gives : ∀ {items : List Value}, WellFormedItems items → ∀ (i : Nat)
    {context : Value}, context.WellFormed → ∀ path,
    Gives (fun vs => ∀ v ∈ vs, v.WellFormed) (runItems items i ⟨context, path⟩)
  | [], _, _, _, _, _ => .pure fun _ hv => absurd hv List.not_mem_nil
  | _ :: _, h, i, _, hcontext, path =>
    (run_gives h.1 hcontext _).bind fun _ hv =>
      (runItems_gives h.2 (i + 1) hcontext path).bind fun _ hmore =>
        .pure (List.forall_mem_cons.mpr ⟨hv, hmore⟩)
  termination_by structural items => items

theorem terms_wellFormed : ∀ {items : List Value}, WellFormedItems items →
    ∀ t ∈ terms items, t.WellFormed
  | [], _ => fun _ ht => absurd ht List.not_mem_nil
  | _ :: _, h => List.forall_mem_cons.mpr ⟨⟨h.1, run_gives h.1⟩, terms_wellFormed h.2⟩
  termination_by structural items => items

end

end Value

/-- **An evaluation repeats no key and explains every step**, if its expression and its context
repeat none. -/
theorem evaluate_wellFormed {e context : Value} (he : e.WellFormed) (hcontext : context.WellFormed)
    {outcome : Evaluation} (h : evaluate e context = .ok outcome) :
    outcome.result.WellFormed ∧ WellFormedTrace outcome.trace := by
  have hrun : e.run ⟨context, rootPath⟩ = .ok (outcome.result, outcome.trace) := by
    rw [evaluate] at h
    split at h
    · cases h
    · cases h
      assumption
  exact Value.run_gives he hcontext rootPath _ _ hrun

end DecisionRules
