import DecisionRules.Proofs.Rule.Relocation
import DecisionRules.Rule.InPlace
import Mathlib.Data.List.Forall2

/-!
# Proofs/Rule/InPlace — written to any list, at any path, a trace is the same

An evaluation in place appends to whatever list it is handed, and reports whatever path it is
handed.  Neither makes a difference.  Work on a list does what is recorded (`InPlace.Writes`): it has
the same outcome, and the steps recorded go behind those that are there.  That is kept where one
piece of work comes after another, so there is one lemma for each loop over arguments and one for
each operator, and a node, whose arguments write to a list of their own, is the one place where a new
list is begun (`InPlace.writes_runNode`).

With the relocation of what is recorded (`Value.relocates`) this says of an evaluation in place, on
any list and at any path, that it is the evaluation from the root on an empty one, with the root of
every path replaced (`InPlace.carryOut_run_of_evaluate`).
-/

namespace DecisionRules.InPlace

open List (Forall₂)

variable {α β : Type}

/-! ## One piece of work after another -/

namespace Work

variable {x : Work α} {before after : List TraceStep}

theorem carryOut_bind_ok {a : α} (h : x.carryOut before = (.ok a, after)) (f : α → Work β) :
    (x >>= f).carryOut before = (f a).carryOut after := by
  change StateT.run (ExceptT.run x) before = _ at h
  change StateT.run (ExceptT.run (x >>= f)) before = _
  rw [ExceptT.run_bind, StateT.run_bind, h]
  rfl

theorem carryOut_bind_error {err : EvalError} (h : x.carryOut before = (.error err, after))
    (f : α → Work β) : (x >>= f).carryOut before = (.error err, after) := by
  change StateT.run (ExceptT.run x) before = _ at h
  change StateT.run (ExceptT.run (x >>= f)) before = _
  rw [ExceptT.run_bind, StateT.run_bind, h]
  rfl

end Work

/-- **Work that writes what is recorded**: it has the same outcome and leaves the steps that are
there in place.  If it succeeds the steps recorded stand behind them, and if it fails some others
may. -/
structure Writes (work : Work α) (x : Recorded α) : Prop where
  ok : ∀ a steps, x = .ok (a, steps) → ∀ before, work.carryOut before = (.ok a, before ++ steps)
  error : ∀ err, x = .error err → ∀ before, ∃ more,
    work.carryOut before = (.error err, before ++ more)

/-- A computation that records no step. -/
def Silent (x : Recorded α) : Prop := ∀ a steps, x = .ok (a, steps) → steps = []

namespace Writes

theorem pure (a : α) : Writes (pure a) (pure a) where
  ok b steps h before := by
    cases h
    rw [List.append_nil]
    rfl
  error err h := by cases h

theorem throw (err : EvalError) : Writes (throw err : Work α) (Recorded.fail err) where
  ok a steps h := by cases h
  error err' h before := by
    cases h
    exact ⟨[], by rw [List.append_nil]; rfl⟩

/-- **One piece of work after another** writes what is recorded of one after the other. -/
theorem bind {work : Work α} {x : Recorded α} {next : α → Work β} {f : α → Recorded β}
    (h : Writes work x) (hnext : ∀ a, Writes (next a) (f a)) :
    Writes (work >>= next) (x >>= f) where
  ok b steps hok before := by
    obtain ⟨a, first, second, hx, hf, rfl⟩ := Recorded.bind_eq_ok hok
    rw [Work.carryOut_bind_ok (h.ok a first hx before), (hnext a).ok b second hf,
      List.append_assoc]
  error err herr before := by
    rcases Recorded.bind_eq_error herr with hx | ⟨a, first, hx, hf⟩
    · obtain ⟨more, hwork⟩ := h.error err hx before
      exact ⟨more, Work.carryOut_bind_error hwork next⟩
    · obtain ⟨more, hwork⟩ := (hnext a).error err hf (before ++ first)
      exact ⟨first ++ more, by
        rw [Work.carryOut_bind_ok (h.ok a first hx before), hwork, List.append_assoc]⟩

/-- What starts from a result goes on from it. -/
theorem pure_bind {γ δ : Type} {a : γ} {b : δ} {next : γ → Work β} {f : δ → Recorded β}
    (h : Writes (next a) (f b)) : Writes (Pure.pure a >>= next) (Pure.pure b >>= f) := by
  rw [Recorded.pure_bind]
  exact h

/-- What records no step may be done without writing any. -/
theorem still {x : Recorded α} (h : Silent x) : Writes (Work.still x) x where
  ok a steps hok before := by
    subst hok
    rw [h a steps rfl, List.append_nil]
    rfl
  error err herr before := by
    subst herr
    exact ⟨[], by rw [List.append_nil]; rfl⟩

end Writes

/-! ## What records no step -/

namespace Silent

theorem pure (a : α) : Silent (pure a) := fun b steps h => by
  cases h
  rfl

theorem fail (err : EvalError) : Silent (Recorded.fail err : Recorded α) := fun a steps h => by
  cases h

theorem bind {x : Recorded α} {f : α → Recorded β} (h : Silent x) (hf : ∀ a, Silent (f a)) :
    Silent (x >>= f) := fun b steps hok => by
  obtain ⟨a, first, second, hx, hnext, rfl⟩ := Recorded.bind_eq_ok hok
  rw [h a first hx, hf a b second hnext, List.append_nil]

theorem ofOption (err : EvalError) (a? : Option α) : Silent (Recorded.ofOption err a?) := by
  cases a? with
  | none => exact .fail err
  | some a => exact .pure a

theorem asNumber (operator : Operator) (v : Value) : Silent (asNumber operator v) := by
  cases v with
  | number x => exact .pure x
  | _ => exact .fail _

theorem asWrittenString (operator : Operator) (what : String) (written : Value) :
    Silent (asWrittenString operator what written) := .ofOption _ _

theorem presence (operator : Operator) (context : Value) (keys : List Value) :
    Silent (Rule.presence operator context keys) := by
  induction keys with
  | nil => exact .pure _
  | cons written rest ih =>
    refine (Silent.asWrittenString operator "key" written).bind fun path => ?_
    refine ih.bind fun counted => ?_
    by_cases hat : context.hasAt path = true
    · simp only [hat, if_true]
      exact .pure _
    · simp only [hat]
      exact .pure _

end Silent

/-! ## Arguments -/

/-- Terms for the same sub-expression, the work of one writing what the other records. -/
structure Term.Writes (t : Term) (u : DecisionRules.Term) : Prop where
  written : t.written = u.written
  run : ∀ place, InPlace.Writes (t.run place) (u.run place)

/-- Arguments that are the same term by term. -/
inductive Arguments.Writes : Arguments → DecisionRules.Arguments → Prop
  | list {ts : List Term} {us : List DecisionRules.Term} (terms : Forall₂ Term.Writes ts us) :
    Arguments.Writes (.list ts) (.list us)
  | bare {t : Term} {u : DecisionRules.Term} (term : t.Writes u) :
    Arguments.Writes (.bare t) (.bare u)

variable {args : Arguments} {args' : DecisionRules.Arguments} {ts : List Term}
  {us : List DecisionRules.Term}

theorem map_written_eq (h : Forall₂ Term.Writes ts us) :
    ts.map (·.written) = us.map (·.written) := by
  induction h with
  | nil => rfl
  | cons hterm _ ih => rw [List.map_cons, List.map_cons, hterm.written, ih]

/-- An operator that takes only a list of arguments. -/
theorem writes_ofList (h : args.Writes args') {operator : Operator} {next : List Term → Work α}
    {f : List DecisionRules.Term → Recorded α}
    (hnext : ∀ ts us, Forall₂ Term.Writes ts us → Writes (next ts) (f us)) :
    Writes (args.asList operator >>= next) (args'.asList operator >>= f) := by
  cases h with
  | list hterms => exact .pure_bind (hnext _ _ hterms)
  | bare hterm => exact .throw _

/-- An operator that takes exactly two arguments. -/
theorem writes_ofPair (h : args.Writes args') {operator : Operator} {fault : ArgumentFault}
    {next : Term × Term → Work α} {f : DecisionRules.Term × DecisionRules.Term → Recorded α}
    (hnext : ∀ t t' u u', Term.Writes t u → Term.Writes t' u' → Writes (next (t, t')) (f (u, u'))) :
    Writes (args.asPair operator fault >>= next) (args'.asPair operator fault >>= f) := by
  cases h with
  | bare hterm => exact .throw _
  | list hterms =>
    rcases hterms with _ | ⟨hfirst, _ | ⟨hsecond, _ | ⟨hthird, hrest⟩⟩⟩
    case cons.cons.nil => exact .pure_bind (hnext _ _ _ _ hfirst hsecond)
    all_goals exact .throw _

theorem writes_runUntil (stop : Value → Bool) (place : Place) (h : Forall₂ Term.Writes ts us) :
    ∀ i, Writes (runUntil stop place i ts) (DecisionRules.runUntil stop place i us) := by
  induction h with
  | nil => exact fun _ => .pure _
  | cons hterm _ ih =>
    refine fun i => (hterm.run _).bind fun v => ?_
    by_cases hstop : stop v = true
    · simp only [hstop, if_true]
      exact .pure _
    · simp only [hstop]
      exact (ih (i + 1)).bind fun _ => .pure _

theorem writes_runNumbers (operator : Operator) (place : Place) (h : Forall₂ Term.Writes ts us) :
    ∀ i, Writes (runNumbers operator place i ts)
      (DecisionRules.runNumbers operator place i us) := by
  induction h with
  | nil => exact fun _ => .pure _
  | cons hterm _ ih =>
    exact fun i => (hterm.run _).bind fun v => (Writes.still (.asNumber operator v)).bind fun x =>
      (ih (i + 1)).bind fun _ => .pure _

/-! ## Operators -/

theorem writes_untilDecided (h : args.Writes args') (operator : Operator) (decides : Value → Bool)
    (vacuous : Bool) (place : Place) :
    Writes (untilDecided operator decides vacuous args place)
      (Rule.untilDecided operator decides vacuous args' place) :=
  writes_ofList h fun _ _ hterms =>
    (writes_runUntil decides place hterms 0).bind fun _ => .pure _

theorem writes_negation (h : args.Writes args') (place : Place) :
    Writes (negation args place) (Rule.negation args' place) := by
  cases h with
  | bare hterm => exact .pure_bind ((hterm.run _).bind fun _ => .pure _)
  | list hterms =>
    rcases hterms with _ | ⟨hterm, _ | ⟨hsecond, hrest⟩⟩
    case cons.nil => exact .pure_bind ((hterm.run _).bind fun _ => .pure _)
    all_goals exact .throw _

theorem writes_chooseBranch (place : Place) : ∀ {ts : List Term} {us : List DecisionRules.Term},
    Forall₂ Term.Writes ts us →
      ∀ k, Writes (chooseBranch place k ts) (Rule.chooseBranch place k us)
  | [], _, .nil, _ => .pure _
  | [_], _, .cons hterm .nil, _ => (hterm.run _).bind fun result => .pure _
  | _ :: _ :: _, _, .cons hcondition (.cons hbranch hrest), k => by
    refine (hcondition.run _).bind fun held => ?_
    by_cases hheld : held.truthy = true
    · simp only [hheld, if_true]
      exact (hbranch.run _).bind fun result => .pure _
    · simp only [hheld]
      exact (writes_chooseBranch place hrest (k + 1)).bind fun _ => .pure _

theorem writes_ifElse (h : args.Writes args') (place : Place) :
    Writes (ifElse args place) (Rule.ifElse args' place) := by
  refine writes_ofList h fun ts us hterms => ?_
  cases hterms with
  | nil => exact .throw _
  | cons hterm hrest =>
    exact (writes_chooseBranch place (.cons hterm hrest) 0).bind fun _ => .pure _

theorem writes_equal (h : args.Writes args') (place : Place) :
    Writes (onValues .equal allEqual args place) (Rule.equal args' place) := by
  refine writes_ofList h fun _ _ hterms => (writes_runUntil _ place hterms 0).bind fun values => ?_
  cases values with
  | nil => exact .throw _
  | cons first rest => exact .pure _

theorem writes_notEqual (h : args.Writes args') (place : Place) :
    Writes (onValues .notEqual someDiffers args place) (Rule.notEqual args' place) := by
  refine writes_ofList h fun _ _ hterms => (writes_runUntil _ place hterms 0).bind fun values => ?_
  rcases values with _ | ⟨first, _ | ⟨second, rest⟩⟩
  · exact .throw _
  · exact .throw _
  · exact .pure _

theorem writes_onNumbers (h : args.Writes args') (operator : Operator)
    (compute : List Float → Except EvalError Value) (place : Place) :
    Writes (onNumbers operator compute args place)
      (Rule.onNumbers operator compute args' place) := by
  refine writes_ofList h fun _ _ hterms =>
    (writes_runNumbers operator place hterms 0).bind fun numbers => ?_
  cases compute numbers with
  | ok result => exact .pure _
  | error err => exact .throw _

theorem writes_scanElements (q : Quantifier) {t : Term} {u : DecisionRules.Term} (h : t.Writes u)
    (place : Place) (elements : List Value) : ∀ i,
      Writes (scanElements q t place i elements) (Rule.scanElements q u place i elements) := by
  induction elements with
  | nil => exact fun _ => .pure _
  | cons item rest ih =>
    refine fun i => (h.run _).bind fun outcome => ?_
    cases q.decides outcome.truthy with
    | some answer => exact .pure _
    | none => exact (ih (i + 1)).bind fun _ => .pure _

theorem writes_quantification (h : args.Writes args') (q : Quantifier) (place : Place) :
    Writes (quantification q args place) (Rule.quantification q args' place) :=
  writes_ofPair h fun _ _ _ _ hsequence hpredicate =>
    (hsequence.run _).bind fun _ => (Writes.still (.ofOption _ _)).bind fun elements =>
      (writes_scanElements q hpredicate place elements 0).bind fun _ => .pure _

theorem writes_membership (h : args.Writes args') (place : Place) :
    Writes (membership args place) (Rule.membership args' place) :=
  writes_ofPair h fun _ _ _ _ hneedle hhaystack =>
    (hneedle.run _).bind fun _ => (hhaystack.run _).bind fun _ =>
      (Writes.still (.ofOption _ _)).bind fun _ => .pure _

/-- What goes on from the path of a `var`, and from its stand-in. -/
theorem writes_ofTarget (h : args.Writes args') {next : String × Option Term → Work α}
    {f : String × Option DecisionRules.Term → Recorded α}
    (hnext : ∀ path t? u?, Option.Rel Term.Writes t? u? → Writes (next (path, t?)) (f (path, u?))) :
    Writes (varTarget args >>= next) (Rule.varTarget args' >>= f) := by
  cases h with
  | list hterms =>
    cases hterms with
    | nil => exact .pure_bind (hnext "" none none .none)
    | @cons t u ts us hterm hrest =>
      have hstandIn : Option.Rel Term.Writes ts.head? us.head? := by
        cases hrest with
        | nil => exact .none
        | cons hsecond _ => exact .some hsecond
      simp only [varTarget, Rule.varTarget, hterm.written, bind_assoc, Recorded.bind_assoc]
      exact (Writes.still (.asWrittenString _ _ _)).bind fun path =>
        .pure_bind (hnext path _ _ hstandIn)
  | @bare t u hterm =>
    simp only [varTarget, Rule.varTarget, hterm.written]
    cases u.written with
    | null => exact .pure_bind (hnext "" none none .none)
    | _ =>
      simp only [bind_assoc, Recorded.bind_assoc]
      exact (Writes.still (.asWrittenString _ _ _)).bind fun path =>
        .pure_bind (hnext path none none .none)

theorem writes_var (h : args.Writes args') (place : Place) :
    Writes (var args place) (Rule.var args' place) := by
  refine writes_ofTarget h fun path t? u? hstandIn => ?_
  dsimp only
  cases place.context.resolve path with
  | some found => exact .pure _
  | none =>
    cases hstandIn with
    | none => exact .pure _
    | some hterm => exact (hterm.run _).bind fun _ => .pure _

theorem writes_missing (h : args.Writes args') (place : Place) :
    Writes (missing args place) (Rule.missing args' place) := by
  refine writes_ofList h fun ts us hterms => ?_
  simp only [map_written_eq hterms]
  exact (Writes.still (.presence _ _ _)).bind fun _ => .pure _

theorem writes_missingSome (h : args.Writes args') (place : Place) :
    Writes (missingSome args place) (Rule.missingSome args' place) := by
  refine writes_ofPair h fun _ _ _ _ hthreshold hkeys => ?_
  refine (hthreshold.run _).bind fun value => ?_
  refine (Writes.still (.asNumber _ value)).bind fun required => ?_
  rw [hkeys.written]
  exact (Writes.still (.ofOption _ _)).bind fun keys => (Writes.still (.presence _ _ keys)).bind
    fun _ => .pure _

/-- **An operator in place writes what it records.** -/
theorem writes_apply (h : args.Writes args') (operator : Operator) (place : Place) :
    Writes (apply operator args place) (operator.apply args' place) := by
  cases operator with
  | var => exact writes_var h place
  | and => exact writes_untilDecided h _ _ _ place
  | or => exact writes_untilDecided h _ _ _ place
  | not => exact writes_negation h place
  | ifElse => exact writes_ifElse h place
  | membership => exact writes_membership h place
  | missing => exact writes_missing h place
  | missingSome => exact writes_missingSome h place
  | equal => exact writes_equal h place
  | notEqual => exact writes_notEqual h place
  | compare c => exact writes_onNumbers h _ _ place
  | add => exact writes_onNumbers h _ _ place
  | subtract => exact writes_onNumbers h _ _ place
  | multiply => exact writes_onNumbers h _ _ place
  | divide => exact writes_onNumbers h _ _ place
  | extremum e => exact writes_onNumbers h _ _ place
  | quantify q => exact writes_quantification h q place

/-! ## Expressions -/

theorem Work.carryOut_onNewList_ok {work : Work α} {a : α} {steps : List TraceStep}
    (h : work.carryOut [] = (.ok a, steps)) (before : List TraceStep) :
    work.onNewList.carryOut before = (.ok (a, steps), before) := by
  rw [Work.onNewList, h]
  rfl

theorem Work.carryOut_onNewList_error {work : Work α} {err : EvalError} {steps : List TraceStep}
    (h : work.carryOut [] = (.error err, steps)) (before : List TraceStep) :
    work.onNewList.carryOut before = (.error err, before) := by
  rw [Work.onNewList, h]
  rfl

/-- **A node writes its one step**, with what its arguments have written to a new list below it.  If
it fails that list is lost, and nothing is written. -/
theorem writes_runNode (h : args.Writes args') (operator : Operator) (place : Place) :
    Writes (runNode operator args place) (operator.runNode args' place) := by
  have happly := writes_apply h operator place
  rw [Operator.runNode]
  rcases hx : operator.apply args' place with err | ⟨applied, children⟩
  · obtain ⟨more, hwork⟩ := happly.error err hx []
    refine ⟨fun a steps hok => ?_, fun err' herr before => ⟨[], ?_⟩⟩
    · cases hok
    · cases herr
      rw [runNode, Work.carryOut_bind_error (Work.carryOut_onNewList_error hwork before),
        List.append_nil]
  · have hwork := happly.ok applied children hx []
    rw [List.nil_append] at hwork
    refine ⟨fun a steps hok before => ?_, fun err herr => ?_⟩
    · cases hok
      rw [runNode, Work.carryOut_bind_ok (Work.carryOut_onNewList_ok hwork before)]
      rfl
    · cases herr

theorem writes_runNamed (h : args.Writes args') (name : String) (place : Place) :
    Writes (runNamed name args place) (DecisionRules.runNamed name args' place) := by
  rw [runNamed, DecisionRules.runNamed]
  cases Operator.ofName? name with
  | none => exact .throw _
  | some operator => exact writes_runNode h operator place

mutual

/-- **An evaluation in place writes what is recorded.** -/
theorem writes_run : ∀ (e : Value) (place : Place), Writes (run e place) (e.run place)
  | .object [(name, argument)], place => by
    have hbare : Arguments.Writes (.bare ⟨argument, run argument⟩)
        (.bare ⟨argument, argument.run⟩) :=
      .bare ⟨rfl, writes_run argument⟩
    cases argument with
    | array items => exact writes_runNamed (.list (writes_terms items)) name place
    | _ => exact writes_runNamed hbare name place
  | .object [], _ => .throw _
  | .object ((_, argument) :: _ :: _), _ => by
    cases argument <;> exact .throw _
  | .array items, place => (writes_runItems items 0 place).bind fun _ => .pure _
  | .null, _ => .pure _
  | .bool _, _ => .pure _
  | .number _, _ => .pure _
  | .string _, _ => .pure _
  termination_by structural e => e

theorem writes_runItems : ∀ (items : List Value) (i : Nat) (place : Place),
    Writes (runItems items i place) (Value.runItems items i place)
  | [], _, _ => .pure _
  | e :: rest, i, place => (writes_run e (place.item i)).bind fun _ =>
      (writes_runItems rest (i + 1) place).bind fun _ => .pure _
  termination_by structural items => items

theorem writes_terms : ∀ items : List Value, Forall₂ Term.Writes (terms items) (Value.terms items)
  | [] => .nil
  | e :: rest => .cons ⟨rfl, writes_run e⟩ (writes_terms rest)
  termination_by structural items => items

end

/-- **From the root and on an empty list**, an evaluation in place is an evaluation. -/
theorem evaluate_eq (e c : Value) : evaluate e c = DecisionRules.evaluate e c := by
  have hrun := writes_run e ⟨c, rootPath⟩
  rw [evaluate, DecisionRules.evaluate]
  rcases hx : e.run ⟨c, rootPath⟩ with err | ⟨v, steps⟩
  · obtain ⟨more, hwork⟩ := hrun.error err hx []
    rw [hwork]
  · rw [hrun.ok v steps hx []]
    rfl

/-! ## From the root to anywhere -/

/-- A path with the root that it starts with, if it does, replaced. -/
def reroot (root path : String) : String :=
  match path.toList with
  | '$' :: rest => root ++ String.ofList rest
  | _ => path

theorem carries_reroot (root : String) : Carries (reroot root) rootPath root := fun rest => by
  have hstart : (rootPath ++ rest).toList = '$' :: rest.toList := by
    rw [String.toList_append]
    rfl
  simp only [reroot, hstart, String.ofList_toList]

/-- **Evaluation is independent of where it happens.**  From the root and on an empty list an
evaluation in place is an evaluation.  At any path and on any list it succeeds if and only if that
one does.  Then it has the same result, and what it leaves is the list as it was, followed by the
steps of that one with the path in place of the root, in the paths of all steps at any depth.  If it
fails the error is the same, with the path in place of the root, if it names a path; and what was on
the list is still there. -/
theorem carryOut_run_of_evaluate (e c : Value) (path : String) (before : List TraceStep) :
    evaluate e c = DecisionRules.evaluate e c ∧
    ((∃ v, ((run e ⟨c, path⟩).carryOut before).1 = .ok v) ↔
      ∃ outcome, DecisionRules.evaluate e c = .ok outcome) ∧
    (∀ outcome, DecisionRules.evaluate e c = .ok outcome →
      (run e ⟨c, path⟩).carryOut before =
        (.ok outcome.result, before ++ TraceStep.mapPaths (reroot path) outcome.trace)) ∧
    ∀ err, DecisionRules.evaluate e c = .error err → ∃ more,
      (run e ⟨c, path⟩).carryOut before = (.error (err.mapPath (reroot path)), before ++ more) := by
  have hwrites := writes_run e ⟨c, path⟩
  have hrelocates := e.relocates c (carries_reroot path)
  have hok : ∀ outcome, DecisionRules.evaluate e c = .ok outcome →
      (run e ⟨c, path⟩).carryOut before =
        (.ok outcome.result, before ++ TraceStep.mapPaths (reroot path) outcome.trace) := by
    intro outcome h
    rw [evaluate_ok_iff.mp h] at hrelocates
    exact hwrites.ok _ _ hrelocates before
  have herror : ∀ err, DecisionRules.evaluate e c = .error err → ∃ more,
      (run e ⟨c, path⟩).carryOut before = (.error (err.mapPath (reroot path)), before ++ more) := by
    intro err h
    rw [evaluate_error_iff.mp h] at hrelocates
    exact hwrites.error _ hrelocates before
  refine ⟨evaluate_eq e c, ⟨fun ⟨v, hv⟩ => ?_, fun ⟨outcome, h⟩ => ?_⟩, hok, herror⟩
  · rcases h : DecisionRules.evaluate e c with err | outcome
    · obtain ⟨more, hwork⟩ := herror err h
      rw [hwork] at hv
      cases hv
    · exact ⟨outcome, rfl⟩
  · exact ⟨outcome.result, by rw [hok outcome h]⟩

/-- Steps at two depths behind one that is there, below an argument of some node; an error with a
path, after a step has been written; and one without. -/
theorem carryOut_run_of_evaluate_behind :
    let c : Value := .object [("a", .bool true)]
    let read : Value := .object [("var", .string "a")]
    let path := "$.args[1]"
    let before : List TraceStep := [⟨"$.args[0]", "var", .null, none, []⟩]
    let e (second : Value) : Value := .array [.object [("!", .array [read])], second]
    let unknown : Value := .object [("!", .array [.object [("xor", .null)]])]
    let broken : Value := .object [("/", .array [.number 1, .number 0])]
    (∃ outcome, DecisionRules.evaluate (e read) c = .ok outcome ∧
      (run (e read) ⟨c, path⟩).carryOut before =
        (.ok outcome.result, before ++ TraceStep.mapPaths (reroot path) outcome.trace) ∧
      (TraceStep.listAll (TraceStep.mapPaths (reroot path) outcome.trace)).map TraceStep.path =
        ["$.args[1][0]", "$.args[1][0].args[0]", "$.args[1][1]"]) ∧
    (DecisionRules.evaluate (e unknown) c = .error (.unsupportedOperator "xor" "$[1].args[0]") ∧
      ∃ more, (run (e unknown) ⟨c, path⟩).carryOut before =
        (.error (.unsupportedOperator "xor" "$.args[1][1].args[0]"), before ++ more)) ∧
    DecisionRules.evaluate (e broken) c = .error .divisionByZero ∧
      ∃ more, (run (e broken) ⟨c, path⟩).carryOut before =
        (.error .divisionByZero, before ++ more) := by
  intro c read path before e unknown broken
  obtain ⟨outcome, hread, hpaths⟩ : ∃ outcome, DecisionRules.evaluate (e read) c = .ok outcome ∧
      (TraceStep.listAll (TraceStep.mapPaths (reroot path) outcome.trace)).map TraceStep.path =
        ["$.args[1][0]", "$.args[1][0].args[0]", "$.args[1][1]"] := ⟨_, rfl, by decide +kernel⟩
  have hunknown : DecisionRules.evaluate (e unknown) c =
      .error (.unsupportedOperator "xor" "$[1].args[0]") := rfl
  have hbroken : DecisionRules.evaluate (e broken) c = .error .divisionByZero := rfl
  obtain ⟨-, -, hok, -⟩ := carryOut_run_of_evaluate (e read) c path before
  obtain ⟨-, -, -, hfails⟩ := carryOut_run_of_evaluate (e unknown) c path before
  obtain ⟨-, -, -, hdivides⟩ := carryOut_run_of_evaluate (e broken) c path before
  exact ⟨⟨outcome, hread, hok outcome hread, hpaths⟩, ⟨hunknown, hfails _ hunknown⟩, hbroken,
    hdivides _ hbroken⟩

end DecisionRules.InPlace
