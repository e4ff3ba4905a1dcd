import Mathlib.Data.List.Forall2
import DecisionRules.Proofs.Rule.Relocation

/-!
# Proofs/Rule/Congruence — operators cannot tell apart what evaluates alike

An operator has two ways to its arguments: it evaluates them, and of a few it reads the paths and
keys that are written in them.  So two lists of arguments, the first with one context and the second
with another, give the same computation if they evaluate alike and read alike item by item
(`Value.Indistinct`), and the contexts hold the same along the paths that are written there
(`Operator.apply_congr`).

A quantifier evaluates its predicate in contexts of its own, one for each element that it comes to.
What is asked of the predicate is about those contexts and no others (`Rule.quantification_congr`).
-/

namespace DecisionRules

/-! ## What is read as it is written -/

/-- The paths written in a node, none unless its operator looks paths up.  A `var` without a path
has the empty one. -/
def Operator.writtenPaths : Operator → Value → List String
  | .var, .array [] => [""]
  | .var, .array (path :: _) => path.string?.toList
  | .var, .null => [""]
  | .var, path => path.string?.toList
  | .missing, .array keys => keys.filterMap Value.string?
  | .missingSome, .array [_, .array keys] => keys.filterMap Value.string?
  | _, _ => []

theorem Value.eq_array_of_items? {v : Value} {items : List Value} (h : v.items? = some items) :
    v = .array items := by
  cases v <;> cases h
  rfl

theorem Value.eq_null_of_isNull {v : Value} (h : v.isNull = true) : v = .null := by
  cases v <;> cases h
  rfl

/-- The same is read in two values as they are written: whether there is anything, the text, the
texts of the items. -/
structure Value.ReadsAlike (v w : Value) : Prop where
  isNull : v.isNull = w.isNull
  text : v.string? = w.string?
  texts : v.items?.map (·.map Value.string?) = w.items?.map (·.map Value.string?)

namespace Value.ReadsAlike

theorem refl (v : Value) : v.ReadsAlike v := ⟨rfl, rfl, rfl⟩

theorem trans {u v w : Value} (h : u.ReadsAlike v) (h' : v.ReadsAlike w) : u.ReadsAlike w :=
  ⟨h.isNull.trans h'.isNull, h.text.trans h'.text, h.texts.trans h'.texts⟩

/-- Nothing is read in an object. -/
theorem object (xs ys : List (String × Value)) : (Value.object xs).ReadsAlike (.object ys) :=
  ⟨rfl, rfl, rfl⟩

theorem array {xs ys : List Value} (h : xs.map Value.string? = ys.map Value.string?) :
    (Value.array xs).ReadsAlike (.array ys) :=
  ⟨rfl, rfl, congrArg some h⟩

/-- Neither is a list, or both are, of items with the same texts. -/
theorem items_cases {v w : Value} (h : v.ReadsAlike w) : (v.items? = none ∧ w.items? = none) ∨
    ∃ xs ys, v = .array xs ∧ w = .array ys ∧ xs.map Value.string? = ys.map Value.string? := by
  have htexts := h.texts
  rcases hv : v.items? with _ | xs <;> rcases hw : w.items? with _ | ys <;> rw [hv, hw] at htexts
  · exact .inl ⟨rfl, rfl⟩
  · cases htexts
  · cases htexts
  · exact .inr ⟨xs, ys, eq_array_of_items? hv, eq_array_of_items? hw, Option.some.inj htexts⟩

end Value.ReadsAlike

/-! ## What cannot be told apart -/

/-- An expression, evaluated in one context, cannot be told apart from another, evaluated in
another. -/
structure Value.Indistinct (c d e e' : Value) : Prop where
  readsAlike : e.ReadsAlike e'
  run : ∀ path, e.run ⟨c, path⟩ = e'.run ⟨d, path⟩

/-- What stands under the keys of two nodes with an operator, item by item.  What is no list is
evaluated by `!` alone. -/
inductive Value.IndistinctArguments (operator : Operator) (c d : Value) : Value → Value → Prop
  | list {xs ys : List Value} (h : List.Forall₂ (Indistinct c d) xs ys) :
    IndistinctArguments operator c d (.array xs) (.array ys)
  | bare {x y : Value} (hx : x.items? = none) (hy : y.items? = none) (readsAlike : x.ReadsAlike y)
    (run : operator = .not → ∀ path, x.run ⟨c, path⟩ = y.run ⟨d, path⟩) :
    IndistinctArguments operator c d x y

namespace Value

theorem Indistinct.refl (c e : Value) : Indistinct c c e e := ⟨.refl e, fun _ => rfl⟩

theorem Indistinct.trans {c d b e f g : Value} (h : Indistinct c d e f)
    (h' : Indistinct d b f g) : Indistinct c b e g :=
  ⟨h.readsAlike.trans h'.readsAlike, fun path => (h.run path).trans (h'.run path)⟩

theorem forall₂_indistinct_trans {c d b : Value} : ∀ {xs ys zs : List Value},
    List.Forall₂ (Indistinct c d) xs ys → List.Forall₂ (Indistinct d b) ys zs →
      List.Forall₂ (Indistinct c b) xs zs
  | [], _, _, .nil, .nil => .nil
  | _ :: _, _, _, .cons h hrest, .cons h' hrest' =>
    .cons (h.trans h') (forall₂_indistinct_trans hrest hrest')

theorem IndistinctArguments.trans {operator : Operator} {c d b x y z : Value}
    (h : IndistinctArguments operator c d x y) (h' : IndistinctArguments operator d b y z) :
    IndistinctArguments operator c b x z := by
  cases h with
  | list h =>
    cases h' with
    | list h' => exact .list (forall₂_indistinct_trans h h')
    | bare hy => cases hy
  | bare hx hy readsAlike run =>
    cases h' with
    | list h' => cases hy
    | bare _ hz readsAlike' run' =>
      exact .bare hx hz (readsAlike.trans readsAlike')
        fun hnot path => (run hnot path).trans (run' hnot path)

end Value

theorem Value.asArguments_bare {v : Value} (h : v.items? = none) :
    v.asArguments = .bare v.asTerm := by
  cases v with
  | array items => cases h
  | _ => rfl

theorem map_string?_eq {c d : Value} {xs ys : List Value}
    (h : List.Forall₂ (Value.Indistinct c d) xs ys) :
    xs.map Value.string? = ys.map Value.string? := by
  induction h with
  | nil => rfl
  | cons hxy _ ih => exact congrArg₂ List.cons hxy.readsAlike.text ih

/-- A term is written as the sub-expression that it is. -/
theorem map_written_terms : ∀ items : List Value, (Value.terms items).map (·.written) = items
  | [] => rfl
  | e :: rest => by rw [Value.terms, List.map_cons, map_written_terms rest]

/-! ## What a quantifier comes to -/

/-- A predicate has a value in this context that decides nothing. -/
def Quantifier.Passes (q : Quantifier) (predicate context : Value) : Prop :=
  ∃ outcome, evaluate predicate context = .ok outcome ∧
    q.decides outcome.result.truthy = Option.none

/-- The elements before a position decide nothing, so a quantifier gets to it. -/
def Quantifier.Reaches (q : Quantifier) (predicate context : Value) (elements : List Value)
    (k : Nat) : Prop :=
  ∀ j < k, ∀ before, elements[j]? = some before →
    q.Passes predicate (Rule.bindItem context before j)

/-! ## Loops over arguments -/

namespace Rule

variable {c d : Value} {xs ys : List Value}

theorem runUntil_congr (h : List.Forall₂ (Value.Indistinct c d) xs ys) (stop : Value → Bool)
    (path : String) : ∀ i, runUntil stop ⟨c, path⟩ i (Value.terms xs) =
      runUntil stop ⟨d, path⟩ i (Value.terms ys) := by
  induction h with
  | nil => exact fun _ => rfl
  | cons hxy _ ih =>
    intro i
    simp only [Value.terms, runUntil, Place.child, hxy.run, ih]

theorem runNumbers_congr (h : List.Forall₂ (Value.Indistinct c d) xs ys) (operator : Operator)
    (path : String) : ∀ i, runNumbers operator ⟨c, path⟩ i (Value.terms xs) =
      runNumbers operator ⟨d, path⟩ i (Value.terms ys) := by
  induction h with
  | nil => exact fun _ => rfl
  | cons hxy _ ih =>
    intro i
    simp only [Value.terms, runNumbers, Place.child, hxy.run, ih]

theorem runItems_congr (h : List.Forall₂ (Value.Indistinct c d) xs ys) (path : String) :
    ∀ i, Value.runItems xs i ⟨c, path⟩ = Value.runItems ys i ⟨d, path⟩ := by
  induction h with
  | nil => exact fun _ => rfl
  | cons hxy _ ih =>
    intro i
    simp only [Value.runItems, Place.item, hxy.run, ih]

theorem chooseBranch_congr (path : String) : ∀ {xs ys : List Value},
    List.Forall₂ (Value.Indistinct c d) xs ys → ∀ k,
      chooseBranch ⟨c, path⟩ k (Value.terms xs) = chooseBranch ⟨d, path⟩ k (Value.terms ys)
  | [], _, h, _ => by
    cases h
    rfl
  | [_], _, h, _ => by
    obtain ⟨_, _, hlast, hnil, rfl⟩ := List.forall₂_cons_left_iff.mp h
    obtain rfl := List.forall₂_nil_left_iff.mp hnil
    simp only [Value.terms, chooseBranch, Place.child, hlast.run]
  | _ :: _ :: _, _, h, k => by
    obtain ⟨_, _, hcondition, hbehind, rfl⟩ := List.forall₂_cons_left_iff.mp h
    obtain ⟨_, _, hbranch, hrest, rfl⟩ := List.forall₂_cons_left_iff.mp hbehind
    simp only [Value.terms, chooseBranch, Place.child, hcondition.run, hbranch.run,
      chooseBranch_congr path hrest (k + 1)]

theorem asWrittenString_of_text {operator : Operator} {what text : String} {v : Value}
    (h : v.string? = some text) : asWrittenString operator what v = pure text := by
  rw [asWrittenString, h]
  rfl

theorem asWrittenString_of_none {operator : Operator} {what : String} {v : Value}
    (h : v.string? = none) : asWrittenString operator what v =
      Recorded.fail (.invalidArguments operator (.notString what)) := by
  rw [asWrittenString, h]
  rfl

/-- Looking up paths that lead to the same. -/
theorem presence_congr (operator : Operator) : ∀ {ks ls : List Value},
    ks.map Value.string? = ls.map Value.string? →
      (∀ path ∈ ks.filterMap Value.string?, c.resolve path = d.resolve path) →
        presence operator c ks = presence operator d ls
  | [], [], _, _ => rfl
  | key :: ks, key' :: ls, h, hpaths => by
    obtain ⟨hkey, hrest⟩ := List.cons.inj h
    rw [presence, presence]
    rcases htext : key.string? with _ | path
    · rw [asWrittenString_of_none htext, asWrittenString_of_none (hkey ▸ htext),
        Recorded.fail_bind, Recorded.fail_bind]
    · rw [List.filterMap_cons_some htext] at hpaths
      obtain ⟨hpath, hpaths⟩ := List.forall_mem_cons.mp hpaths
      have hhas : c.hasAt path = d.hasAt path := by rw [Value.hasAt, Value.hasAt, hpath]
      rw [asWrittenString_of_text htext, asWrittenString_of_text (hkey ▸ htext),
        Recorded.pure_bind, Recorded.pure_bind, presence_congr operator hrest hpaths, hhas]

theorem eq_of_string? {v w : Value} {text : String} (h : v.string? = some text)
    (h' : v.string? = w.string?) : v = w := by
  rw [h] at h'
  cases v <;> cases h
  cases w <;> cases h'
  rfl

/-- The keys that are looked up are texts, or looking them up fails. -/
theorem eq_or_presence_fails (operator : Operator) (c : Value) : ∀ {ks ls : List Value},
    ks.map Value.string? = ls.map Value.string? →
      ks = ls ∨ ∃ err, presence operator c ks = Recorded.fail err
  | [], [], _ => .inl rfl
  | key :: ks, key' :: ls, h => by
    obtain ⟨hkey, hrest⟩ := List.cons.inj h
    rcases htext : key.string? with _ | path
    · exact .inr ⟨_, by rw [presence, asWrittenString_of_none htext, Recorded.fail_bind]⟩
    · rcases eq_or_presence_fails operator c hrest with rfl | ⟨err, herr⟩
      · exact .inl (congrArg (· :: ks) (eq_of_string? htext hkey))
      · refine .inr ⟨err, ?_⟩
        rw [presence, asWrittenString_of_text htext, Recorded.pure_bind, herr, Recorded.fail_bind]

/-! ## Operators -/

variable {operator : Operator} {argument argument' : Value}

/-- Two continuations of an operator that takes only a list of arguments. -/
theorem asList_congr {α : Type} (h : Value.IndistinctArguments operator c d argument argument')
    {f g : List Term → Recorded α} (hfg : ∀ xs ys, argument = .array xs →
      List.Forall₂ (Value.Indistinct c d) xs ys → f (Value.terms xs) = g (Value.terms ys)) :
    (argument.asArguments.asList operator >>= f) =
      argument'.asArguments.asList operator >>= g := by
  cases h with
  | @list xs ys h =>
    rw [Value.asList_array, Value.asList_array, Recorded.pure_bind, Recorded.pure_bind,
      hfg xs ys rfl h]
  | bare hx hy =>
    rw [Value.asArguments_bare hx, Value.asArguments_bare hy]
    rfl

/-- Two continuations of an operator that takes exactly two arguments. -/
theorem asPair_congr {α : Type} {fault : ArgumentFault}
    (h : Value.IndistinctArguments operator c d argument argument')
    {f g : Term × Term → Recorded α} (hfg : ∀ x y x' y', argument = .array [x, y] →
      Value.Indistinct c d x x' → Value.Indistinct c d y y' →
        f (x.asTerm, y.asTerm) = g (x'.asTerm, y'.asTerm)) :
    (argument.asArguments.asPair operator fault >>= f) =
      argument'.asArguments.asPair operator fault >>= g := by
  cases h with
  | list h =>
    cases h with
    | nil => rfl
    | cons hx h =>
      cases h with
      | nil => rfl
      | @cons y y' ys ys' hy h =>
        cases h with
        | nil =>
          rw [Value.asPair_array, Value.asPair_array, Recorded.pure_bind, Recorded.pure_bind]
          exact hfg _ _ _ _ rfl hx hy
        | cons => rfl
  | bare hx hy =>
    rw [Value.asArguments_bare hx, Value.asArguments_bare hy]
    rfl

/-- An operator that takes exactly two arguments finds fault with everything else. -/
theorem asPair_eq_fail (operator : Operator) (fault : ArgumentFault) {argument : Value}
    (h : ∀ x y, argument ≠ .array [x, y]) : argument.asArguments.asPair operator fault =
      Recorded.fail (.invalidArguments operator fault) := by
  rcases argument with _ | _ | _ | _ | items | _
  case array =>
    rcases items with _ | ⟨x, _ | ⟨y, _ | ⟨z, rest⟩⟩⟩
    case cons.cons.nil => exact absurd rfl (h x y)
    all_goals rfl
  all_goals rfl

theorem untilDecided_congr (h : Value.IndistinctArguments operator c d argument argument')
    (decides : Value → Bool) (vacuous : Bool) (path : String) :
    untilDecided operator decides vacuous argument.asArguments ⟨c, path⟩ =
      untilDecided operator decides vacuous argument'.asArguments ⟨d, path⟩ :=
  asList_congr h fun xs ys _ hitems => by rw [runUntil_congr hitems decides path 0]

theorem negation_congr (h : Value.IndistinctArguments .not c d argument argument') (path : String) :
    negation argument.asArguments ⟨c, path⟩ = negation argument'.asArguments ⟨d, path⟩ := by
  unfold negation
  cases h with
  | list h =>
    cases h with
    | nil => rfl
    | cons hx h =>
      cases h with
      | nil => simp only [Value.asArguments, Value.terms, Recorded.pure_bind, Place.child, hx.run]
      | cons => rfl
  | bare hx hy _ run =>
    simp only [Value.asArguments_bare hx, Value.asArguments_bare hy, Value.asTerm,
      Recorded.pure_bind, Place.child, run rfl]

theorem ifElse_congr (h : Value.IndistinctArguments .ifElse c d argument argument')
    (path : String) : ifElse argument.asArguments ⟨c, path⟩ =
      ifElse argument'.asArguments ⟨d, path⟩ :=
  asList_congr h fun xs ys _ hitems => by
    have hempty : (Value.terms xs).isEmpty = (Value.terms ys).isEmpty := by
      cases hitems <;> rfl
    rw [hempty, chooseBranch_congr path hitems 0]

theorem membership_congr (h : Value.IndistinctArguments .membership c d argument argument')
    (path : String) : membership argument.asArguments ⟨c, path⟩ =
      membership argument'.asArguments ⟨d, path⟩ :=
  asPair_congr h fun needle haystack _ _ _ hneedle hhaystack => by
    simp only [Value.asTerm, Place.child, hneedle.run, hhaystack.run]

theorem equal_congr (h : Value.IndistinctArguments .equal c d argument argument')
    (path : String) : equal argument.asArguments ⟨c, path⟩ =
      equal argument'.asArguments ⟨d, path⟩ :=
  asList_congr h fun xs ys _ hitems => by
    simp only [runEach, runUntil_congr hitems _ path 0]

theorem notEqual_congr (h : Value.IndistinctArguments .notEqual c d argument argument')
    (path : String) : notEqual argument.asArguments ⟨c, path⟩ =
      notEqual argument'.asArguments ⟨d, path⟩ :=
  asList_congr h fun xs ys _ hitems => by
    simp only [runEach, runUntil_congr hitems _ path 0]

theorem onNumbers_congr (h : Value.IndistinctArguments operator c d argument argument')
    (compute : List Float → Except EvalError Value) (path : String) :
    onNumbers operator compute argument.asArguments ⟨c, path⟩ =
      onNumbers operator compute argument'.asArguments ⟨d, path⟩ :=
  asList_congr h fun xs ys _ hitems => by rw [runNumbers_congr hitems operator path 0]

theorem missing_congr (h : Value.IndistinctArguments .missing c d argument argument')
    (hpaths : ∀ path ∈ Operator.missing.writtenPaths argument, c.resolve path = d.resolve path)
    (path : String) : missing argument.asArguments ⟨c, path⟩ =
      missing argument'.asArguments ⟨d, path⟩ :=
  asList_congr h fun xs ys hargument hitems => by
    subst hargument
    have hpresence := presence_congr .missing (map_string?_eq hitems) hpaths
    simp only [map_written_terms, ← hpresence]
    -- The keys are shown in the payload, but only if all of them are texts.
    rcases eq_or_presence_fails .missing c (map_string?_eq hitems) with rfl | ⟨err, herr⟩
    · rfl
    · rw [herr, Recorded.fail_bind, Recorded.fail_bind]

theorem missingSome_congr (h : Value.IndistinctArguments .missingSome c d argument argument')
    (hpaths : ∀ path ∈ Operator.missingSome.writtenPaths argument,
      c.resolve path = d.resolve path) (path : String) :
    missingSome argument.asArguments ⟨c, path⟩ = missingSome argument'.asArguments ⟨d, path⟩ :=
  asPair_congr h fun threshold keys threshold' keys' hargument hthreshold hkeys => by
    subst hargument
    simp only [Value.asTerm, Place.child, hthreshold.run]
    rcases hkeys.readsAlike.items_cases with ⟨hnone, hnone'⟩ | ⟨items, items', rfl, rfl, htexts⟩
    · have hfail : Recorded.ofOption (.invalidArguments .missingSome .notArray)
          (none : Option (List Value)) =
            Recorded.fail (.invalidArguments .missingSome .notArray) := rfl
      simp only [hnone, hnone', hfail, Recorded.fail_bind]
    · have hitems (items : List Value) :
          Recorded.ofOption (.invalidArguments .missingSome .notArray)
            (Value.array items).items? = pure items := rfl
      have hpresence := presence_congr .missingSome htexts hpaths
      simp only [hitems, Recorded.pure_bind, hpresence]

theorem varTarget_bare {v : Value} (h : v.isNull = false) : varTarget (.bare v.asTerm) =
    asWrittenString .var "path" v >>= fun path => pure (path, none) := by
  cases v with
  | null => cases h
  | _ => rfl

/-- What a `var` looks up is the same, and so is what stands in. -/
theorem varTarget_congr (h : Value.IndistinctArguments .var c d argument argument') :
    (∃ err, varTarget argument.asArguments = Recorded.fail err ∧
      varTarget argument'.asArguments = Recorded.fail err) ∨
    ∃ path ∈ Operator.var.writtenPaths argument, ∃ standIn standIn',
      varTarget argument.asArguments = pure (path, standIn) ∧
      varTarget argument'.asArguments = pure (path, standIn') ∧
      Option.Rel (fun t u : Term => ∀ path, t.run ⟨c, path⟩ = u.run ⟨d, path⟩)
        standIn standIn' := by
  cases h with
  | list h =>
    cases h with
    | nil => exact .inr ⟨"", List.mem_singleton_self "", none, none, rfl, rfl, .none⟩
    | @cons first first' rest rest' hfirst hrest =>
      have htext := hfirst.readsAlike.text
      simp only [Value.asArguments, Value.terms, varTarget]
      rcases hpath : first.string? with _ | path
      · rw [asWrittenString_of_none hpath, asWrittenString_of_none (htext ▸ hpath)]
        exact .inl ⟨_, rfl, rfl⟩
      · rw [asWrittenString_of_text hpath, asWrittenString_of_text (htext ▸ hpath)]
        refine .inr ⟨path, ?_, _, _, Recorded.pure_bind _ _, Recorded.pure_bind _ _, ?_⟩
        · simp [Operator.writtenPaths, hpath]
        · cases hrest with
          | nil => exact .none
          | cons hstandIn => exact .some hstandIn.run
  | bare hx hy readsAlike =>
    rw [Value.asArguments_bare hx, Value.asArguments_bare hy]
    have hnull := readsAlike.isNull
    have htext := readsAlike.text
    rcases harg : argument.isNull with _ | _
    · rw [varTarget_bare harg, varTarget_bare (hnull ▸ harg)]
      rcases hpath : argument.string? with _ | path
      · rw [asWrittenString_of_none hpath, asWrittenString_of_none (htext ▸ hpath)]
        exact .inl ⟨_, rfl, rfl⟩
      · rw [asWrittenString_of_text hpath, asWrittenString_of_text (htext ▸ hpath)]
        refine .inr ⟨path, ?_, _, _, Recorded.pure_bind _ _, Recorded.pure_bind _ _, .none⟩
        obtain rfl : argument = .string path := eq_of_string? hpath hpath
        exact List.mem_singleton_self path
    · obtain rfl := Value.eq_null_of_isNull harg
      obtain rfl := Value.eq_null_of_isNull (hnull ▸ harg)
      exact .inr ⟨"", List.mem_singleton_self "", none, none, rfl, rfl, .none⟩

theorem var_congr (h : Value.IndistinctArguments .var c d argument argument')
    (hpaths : ∀ path ∈ Operator.var.writtenPaths argument, c.resolve path = d.resolve path)
    (path : String) : var argument.asArguments ⟨c, path⟩ = var argument'.asArguments ⟨d, path⟩ := by
  unfold var
  obtain ⟨err, h, h'⟩ | ⟨written, hmem, standIn, standIn', h, h', hstandIn⟩ := varTarget_congr h
  · rw [h, h', Recorded.fail_bind, Recorded.fail_bind]
  · rw [h, h', Recorded.pure_bind, Recorded.pure_bind]
    simp only [hpaths written hmem]
    rcases d.resolve written with _ | found
    · cases hstandIn with
      | none => rfl
      | some hrun => simp only [Place.child, hrun]
    · rfl

/-! ## Quantifiers -/

theorem scanElements_congr {q : Quantifier} {p p' : Value} (path : String) :
    ∀ (elements : List Value) (i : Nat), (∀ k item, elements[k]? = some item →
      (∀ j < k, ∀ before, elements[j]? = some before →
        q.Passes p (bindItem c before (i + j))) → ∀ path,
      p.run ⟨bindItem c item (i + k), path⟩ = p'.run ⟨bindItem d item (i + k), path⟩) →
        scanElements q p.asTerm ⟨c, path⟩ i elements = scanElements q p'.asTerm ⟨d, path⟩ i elements
  | [], _, _ => rfl
  | item :: rest, i, h => by
    have hitem (path : String) :
        p.run ⟨bindItem c item i, path⟩ = p'.run ⟨bindItem d item i, path⟩ :=
      h 0 item rfl (fun j hj => absurd hj (Nat.not_lt_zero j)) path
    rw [scanElements, scanElements]
    simp only [Value.asTerm, Place.child, ← hitem]
    refine Recorded.bind_congr fun outcome steps hrun => ?_
    rcases hdecides : q.decides outcome.truthy with _ | answer
    · have hpasses : q.Passes p (bindItem c item i) :=
        ⟨_, Value.evaluate_of_run hrun, hdecides⟩
      have hmore := scanElements_congr path rest (i + 1) fun k next hnext hbefore => by
        rw [Nat.add_assoc, Nat.add_comm 1 k]
        refine h (k + 1) next hnext fun j hj before hmem => ?_
        rcases j with _ | j
        · cases hmem
          exact hpasses
        · rw [← Nat.add_assoc, Nat.add_right_comm]
          exact hbefore j (by omega) before hmem
      simp only [Value.asTerm] at hmore
      simp only [hmore]
    · rfl

/-- **A quantifier** does the same with sequences that evaluate alike and predicates that do so on
the elements that it comes to. -/
theorem quantification_congr {q : Quantifier} {s s' p p' : Value}
    (hs : ∀ path, s.run ⟨c, path⟩ = s'.run ⟨d, path⟩)
    (hp : ∀ outcome elements, evaluate s c = .ok outcome →
      elements? outcome.result = some elements → ∀ k item, elements[k]? = some item →
        q.Reaches p c elements k → ∀ path,
          p.run ⟨bindItem c item k, path⟩ = p'.run ⟨bindItem d item k, path⟩) (path : String) :
    quantification q (Value.array [s, p]).asArguments ⟨c, path⟩ =
      quantification q (Value.array [s', p']).asArguments ⟨d, path⟩ := by
  rw [quantification, quantification, Value.asPair_array, Value.asPair_array,
    Recorded.pure_bind, Recorded.pure_bind]
  simp only [Value.asTerm, Place.child, ← hs]
  refine Recorded.bind_congr fun sequence steps hrun => ?_
  refine Recorded.bind_congr fun elements _ helements => ?_
  have hsome := Recorded.eq_some_of_ofOption helements
  have hscan := scanElements_congr path elements 0 fun k item hitem hbefore => by
    rw [Nat.zero_add]
    refine hp _ elements (Value.evaluate_of_run hrun) hsome k item hitem fun j hj before hmem => ?_
    have hpasses := hbefore j hj before hmem
    rwa [Nat.zero_add] at hpasses
  simp only [Value.asTerm] at hscan
  rw [hscan]

end Rule

open Rule in
/-- **Every operator but the quantifiers** does the same with arguments that cannot be told
apart. -/
theorem Operator.apply_congr {c d argument argument' : Value} {operator : Operator}
    (hoperator : ∀ q, operator ≠ .quantify q)
    (h : Value.IndistinctArguments operator c d argument argument')
    (hpaths : ∀ path ∈ operator.writtenPaths argument, c.resolve path = d.resolve path)
    (path : String) : operator.apply argument.asArguments ⟨c, path⟩ =
      operator.apply argument'.asArguments ⟨d, path⟩ := by
  rcases operator with _ | _ | _ | _ | _ | _ | _ | _ | _ | _ | c | _ | _ | _ | _ | x | q
  case var => exact var_congr h hpaths path
  case and => exact untilDecided_congr h _ _ path
  case or => exact untilDecided_congr h _ _ path
  case not => exact negation_congr h path
  case ifElse => exact ifElse_congr h path
  case membership => exact membership_congr h path
  case missing => exact missing_congr h hpaths path
  case missingSome => exact missingSome_congr h hpaths path
  case equal => exact equal_congr h path
  case notEqual => exact notEqual_congr h path
  case compare => exact onNumbers_congr h (comparison c) path
  case add => exact onNumbers_congr h Rule.sum path
  case subtract => exact onNumbers_congr h difference path
  case multiply => exact onNumbers_congr h product path
  case divide => exact onNumbers_congr h quotient path
  case extremum => exact onNumbers_congr h (Rule.extremum x) path
  case quantify => exact absurd rfl (hoperator q)

namespace Value

/-- Nodes of one name do the same if their operator does with what they are given. -/
theorem run_node_congr {c d argument argument' : Value} {name : String}
    (h : ∀ operator, Operator.ofName? name = some operator → ∀ path,
      operator.apply argument.asArguments ⟨c, path⟩ =
        operator.apply argument'.asArguments ⟨d, path⟩) (path : String) :
    (Value.object [(name, argument)]).run ⟨c, path⟩ =
      (Value.object [(name, argument')]).run ⟨d, path⟩ := by
  rw [run_node, run_node, runNamed, runNamed]
  rcases hname : Operator.ofName? name with _ | operator
  · rfl
  · simp only [Operator.runNode, h operator hname]

theorem run_array_congr {c d : Value} {xs ys : List Value}
    (h : List.Forall₂ (Indistinct c d) xs ys) (path : String) :
    (Value.array xs).run ⟨c, path⟩ = (Value.array ys).run ⟨d, path⟩ := by
  rw [run_array, run_array, Rule.runItems_congr h path 0]

end Value

end DecisionRules
