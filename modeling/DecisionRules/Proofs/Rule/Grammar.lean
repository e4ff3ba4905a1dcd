import DecisionRules.Proofs.Rule.ErrorPath
import DecisionRules.Proofs.Rule.Validation

/-!
# Proofs/Rule/Grammar — validation accepts a grammar and reports its first violation

Validation takes an expression as a document: it goes through the items of arrays and what stands
under the only key of an object, whatever the operator makes of it.  A way into a document
(`Value.reach?`) says by which positions and keys; ways are ordered as a reader of the document comes
to them (`Way.Before`).

The grammar is that every object is a node with a registered operator.  What validation gives is
judged by that for every expression (`Value.judged_validateAt`): success says that the expression is
grammatical, an error describes the first object that is no node and gives the way to it.  All keys on
that way are registered, and no name of an operator has a mark in it, so the way is read off the path.
-/

namespace DecisionRules

/-! ## Ways into a document -/

/-- Positions and keys one after another, from the outside in. -/
abbrev Way := List Sign

namespace Value

/-- What stands at a position of an array, or under the only key of an object. -/
def enter? : Value → Sign → Option Value
  | .array items, .position i => items[i]?
  | .object [(name, argument)], .word word => if word = name then some argument else none
  | _, _ => none

/-- What stands at the end of a way. -/
def reach? : Value → Way → Option Value
  | e, [] => some e
  | e, s :: way => (e.enter? s).bind fun inner => inner.reach? way

theorem sizeOf_enter? {e inner : Value} {s : Sign} (h : e.enter? s = some inner) :
    sizeOf inner < sizeOf e := by
  unfold enter? at h
  split at h
  · have := List.sizeOf_lt_of_mem (List.mem_of_getElem? h)
    simp only [Value.array.sizeOf_spec]
    omega
  · split at h
    · cases h
      simp only [Value.object.sizeOf_spec, List.cons.sizeOf_spec, Prod.mk.sizeOf_spec]
      omega
    · cases h
  · cases h

/-- **Induction over what stands inside a document.** -/
@[elab_as_elim] theorem enterInduction {motive : Value → Prop}
    (h : ∀ e, (∀ s inner, e.enter? s = some inner → motive inner) → motive e) (e : Value) :
    motive e :=
  h e fun _ inner _ => enterInduction h inner
  termination_by sizeOf e
  decreasing_by exact sizeOf_enter? ‹_›

@[simp] theorem enter?_array (items : List Value) (i : Nat) :
    (Value.array items).enter? (.position i) = items[i]? := rfl

@[simp] theorem enter?_object (name : String) (argument : Value) :
    (Value.object [(name, argument)]).enter? (.word name) = some argument :=
  if_pos rfl

/-- A key is entered in a single object only. -/
theorem eq_object_of_enter? {e inner : Value} {word : String}
    (h : e.enter? (.word word) = some inner) : e = .object [(word, inner)] := by
  cases e using expressionCases with
  | literal e hliteral =>
    rcases e with _ | _ | _ | _ | _ | _
    case object => exact hliteral.elim
    all_goals cases h
  | array items => cases h
  | node name argument =>
    rw [enter?] at h
    split at h
    · rename_i hword
      cases h
      rw [hword]
    · cases h
  | malformed entries hlength =>
    rcases entries with _ | ⟨first, _ | ⟨second, rest⟩⟩
    · cases h
    · exact absurd rfl hlength
    · cases h

theorem reach?_append (e : Value) (front back : Way) :
    e.reach? (front ++ back) = (e.reach? front).bind fun inner => inner.reach? back := by
  induction front generalizing e with
  | nil => rfl
  | cons s front ih =>
    rw [List.cons_append, reach?, reach?, Option.bind_assoc]
    exact congrArg _ (funext fun inner => ih inner)

/-! ### Ways to objects -/

variable {way : Way} {entries : List (String × Value)}

theorem reach?_ne_object_of_isLiteral {e : Value} (he : e.IsLiteral) :
    e.reach? way ≠ some (.object entries) := by
  intro h
  rcases way with _ | ⟨s, way⟩
  · cases h
    exact he
  · obtain ⟨inner, hinner, -⟩ := Option.bind_eq_some_iff.mp h
    unfold enter? at hinner
    split at hinner
    · exact he
    · exact he
    · cases hinner

/-- A way to an object in an array enters one of the items. -/
theorem exists_of_reach?_array {items : List Value}
    (h : (Value.array items).reach? way = some (.object entries)) :
    ∃ i item rest, way = .position i :: rest ∧ items[i]? = some item ∧
      item.reach? rest = some (.object entries) := by
  rcases way with _ | ⟨_ | i, rest⟩
  · cases h
  · cases h
  · obtain ⟨item, hitem, hrest⟩ := Option.bind_eq_some_iff.mp h
    exact ⟨i, item, rest, rfl, hitem, hrest⟩

/-- A way to an object in one with a single key ends at once, or goes on under the key. -/
theorem of_reach?_object {name : String} {argument : Value}
    (h : (Value.object [(name, argument)]).reach? way = some (.object entries)) :
    way = [] ∧ entries = [(name, argument)] ∨
      ∃ rest, way = .word name :: rest ∧ argument.reach? rest = some (.object entries) := by
  rcases way with _ | ⟨word | i, rest⟩
  · cases h
    exact .inl ⟨rfl, rfl⟩
  · obtain ⟨inner, hinner, hrest⟩ := Option.bind_eq_some_iff.mp h
    rw [enter?] at hinner
    split at hinner
    · rename_i hword
      cases hinner
      exact .inr ⟨rest, by rw [hword], hrest⟩
    · cases hinner
  · cases h

end Value

/-! ## The order of a document -/

/-- One way comes before another, as the document is read from the front. -/
inductive Way.Before : Way → Way → Prop
  /-- An object comes before what stands in it. -/
  | outer (s : Sign) (rest : Way) : Before [] (s :: rest)
  /-- The items of an array come in their order, with all that stands in them. -/
  | earlier {i j : Nat} (h : i < j) (way way' : Way) :
    Before (.position i :: way) (.position j :: way')
  /-- Inside the same value it is the rest of the way that counts. -/
  | inside (s : Sign) {way way' : Way} (h : Before way way') : Before (s :: way) (s :: way')

theorem Way.Before.asymm {way way' : Way} (h : way.Before way') : ¬ way'.Before way := by
  induction h with
  | outer s rest => exact fun h' => nomatch h'
  | earlier h way way' =>
    intro h'
    cases h' with
    | earlier h' => exact absurd h' (Nat.not_lt_of_lt h)
    | inside => exact absurd h (Nat.lt_irrefl _)
  | inside s h ih =>
    intro h'
    cases h' with
    | earlier h' => exact absurd h' (Nat.lt_irrefl _)
    | inside _ h' => exact ih h'

theorem Way.before_append (way : Way) (s : Sign) (rest : Way) : way.Before (way ++ s :: rest) := by
  induction way with
  | nil => exact .outer s rest
  | cons first way ih => exact .inside first ih

/-! ## The grammar -/

/-- An object is a node with a registered operator. -/
def IsNode (entries : List (String × Value)) : Prop :=
  ∃ name ∈ Operator.registry, ∃ argument, entries = [(name, argument)]

/-- **What an error describes is no node.** -/
theorem EvalError.Describes.not_isNode {path : String} {err : EvalError}
    {entries : List (String × Value)} (h : err.Describes path entries) : ¬ IsNode entries := by
  rintro ⟨name, hname, argument, rfl⟩
  cases h with
  | malformed hlength => exact absurd rfl hlength
  | unsupported _ hunknown => exact hunknown hname

/-- **One error describes an object at a path.** -/
theorem EvalError.Describes.eq {path : String} {err err' : EvalError}
    {entries : List (String × Value)} (h : err.Describes path entries)
    (h' : err'.Describes path entries) : err = err' := by
  cases h with
  | malformed hlength =>
    cases h' with
    | malformed => rfl
    | unsupported => exact absurd rfl hlength
  | unsupported =>
    cases h' with
    | malformed hlength => exact absurd rfl hlength
    | unsupported => rfl

namespace Value

/-- Every object in a document is a node with a registered operator. -/
def IsGrammatical (e : Value) : Prop :=
  ∀ way entries, e.reach? way = some (.object entries) → IsNode entries

namespace IsGrammatical

theorem of_isLiteral {e : Value} (h : e.IsLiteral) : e.IsGrammatical :=
  fun _ _ hreach => absurd hreach (reach?_ne_object_of_isLiteral h)

theorem array {items : List Value}
    (h : ∀ (i : Nat) item, items[i]? = some item → item.IsGrammatical) :
    (Value.array items).IsGrammatical := by
  intro way entries hreach
  obtain ⟨i, item, rest, -, hitem, hrest⟩ := exists_of_reach?_array hreach
  exact h i item hitem rest entries hrest

theorem node {name : String} {argument : Value} (hname : name ∈ Operator.registry)
    (h : argument.IsGrammatical) : (Value.object [(name, argument)]).IsGrammatical := by
  intro way entries hreach
  rcases of_reach?_object hreach with ⟨-, rfl⟩ | ⟨rest, -, hrest⟩
  · exact ⟨name, hname, argument, rfl⟩
  · exact h rest entries hrest

end IsGrammatical

/-- The first object in a document that is no node. -/
structure FirstOffence (e : Value) (way : Way) (entries : List (String × Value)) : Prop where
  reached : e.reach? way = some (.object entries)
  offends : ¬ IsNode entries
  /-- Every other one comes later. -/
  first : ∀ way' entries', e.reach? way' = some (.object entries') → ¬ IsNode entries' →
    way' = way ∨ way.Before way'

namespace FirstOffence

variable {e : Value} {way way' : Way} {entries entries' : List (String × Value)}

/-- **There is one first offence.** -/
theorem unique (h : e.FirstOffence way entries) (h' : e.FirstOffence way' entries') :
    way = way' ∧ entries = entries' := by
  have hway : way = way' := by
    rcases h.first way' entries' h'.reached h'.offends with heq | hbefore
    · exact heq.symm
    · rcases h'.first way entries h.reached h.offends with heq | hbefore'
      · exact heq
      · exact absurd hbefore' hbefore.asymm
  subst hway
  have hsame := h.reached.symm.trans h'.reached
  exact ⟨rfl, Value.object.inj (Option.some.inj hsame)⟩

/-- What comes before the first offence is a node. -/
theorem isNode_of_before (h : e.FirstOffence way entries)
    (hreach : e.reach? way' = some (.object entries')) (hbefore : way'.Before way) :
    IsNode entries' := by
  refine Classical.byContradiction fun hoffends => ?_
  rcases h.first way' entries' hreach hoffends with rfl | hafter
  · exact hbefore.asymm hbefore
  · exact hafter.asymm hbefore

theorem here (h : ¬ IsNode entries) : (Value.object entries).FirstOffence [] entries where
  reached := rfl
  offends := h
  first way' _ _ _ := by
    cases way' with
    | nil => exact .inl rfl
    | cons s rest => exact .inr (.outer s rest)

/-- The first offence under the key of a node is that of the node. -/
theorem argument {name : String} {argument : Value} (hname : name ∈ Operator.registry)
    (h : argument.FirstOffence way entries) :
    (Value.object [(name, argument)]).FirstOffence (.word name :: way) entries where
  reached := by
    rw [reach?, enter?_object]
    exact h.reached
  offends := h.offends
  first way' entries' hreach hoffends := by
    rcases of_reach?_object hreach with ⟨-, rfl⟩ | ⟨rest, rfl, hrest⟩
    · exact absurd ⟨name, hname, argument, rfl⟩ hoffends
    · exact (h.first rest entries' hrest hoffends).imp (congrArg _) (.inside _)

/-- The first offence in an item is that of the array, if there is none in the items before it. -/
theorem item {items : List Value} {i : Nat} {item : Value} (hitem : items[i]? = some item)
    (hbefore : ∀ j < i, ∀ other, items[j]? = some other → other.IsGrammatical)
    (h : item.FirstOffence way entries) :
    (Value.array items).FirstOffence (.position i :: way) entries where
  reached := by
    rw [reach?, enter?_array, hitem]
    exact h.reached
  offends := h.offends
  first way' entries' hreach hoffends := by
    obtain ⟨j, other, rest, rfl, hother, hrest⟩ := exists_of_reach?_array hreach
    rcases Nat.lt_trichotomy j i with hlt | rfl | hlt
    · exact absurd (hbefore j hlt other hother rest entries' hrest) hoffends
    · obtain rfl : item = other := Option.some.inj (hitem.symm.trans hother)
      exact (h.first rest entries' hrest hoffends).imp (congrArg _) (.inside _)
    · exact .inr (.earlier hlt way rest)

end FirstOffence

end Value

/-! ## Ways as paths -/

/-- A sign as it stands in a path. -/
def Sign.text : Sign → String
  | .word s => "." ++ s
  | .position i => positionText i

namespace Way

/-- Signs as they stand in a path. -/
def text : Way → String
  | [] => ""
  | s :: way => s.text ++ Way.text way

/-- The way that a path describes. -/
def ofText? (path : String) : Option Way :=
  let (root, pieces) := cutAtMarks path.toList
  if String.ofList root = rootPath then pieces.mapM Sign.ofPiece? else none

/-- All keys on a way are registered. -/
def IsRegistered (way : Way) : Prop := ∀ word, Sign.word word ∈ way → word ∈ Operator.registry

/-- No name of an operator has a mark in it. -/
theorem isPlain_of_mem_registry {name : String} (hname : name ∈ Operator.registry) {c : Char}
    (hc : c ∈ name.toList) : IsPlain c := by
  have hall : (Operator.registry.all fun name => name.toList.all fun c => decide (IsPlain c)) =
      true := by decide
  exact of_decide_eq_true (List.all_eq_true.mp (List.all_eq_true.mp hall name hname) c hc)

theorem IsRegistered.says_text : ∀ {way : Way}, way.IsRegistered → Says way.text.toList way
  | [], _ => ⟨[], rfl, rfl⟩
  | s :: way, h => by
    have hrest : Says (Way.text way).toList way :=
      IsRegistered.says_text fun word hword => h word (List.mem_cons_of_mem _ hword)
    rw [Way.text, String.toList_append]
    cases s with
    | word word => exact hrest.word fun _ => isPlain_of_mem_registry (h word List.mem_cons_self)
    | position i => exact hrest.position i

/-- **A way is read back from its path**, if all keys on it are registered. -/
theorem IsRegistered.ofText?_text {way : Way} (h : way.IsRegistered) :
    Way.ofText? (rootPath ++ way.text) = some way := by
  obtain ⟨pieces, hcut, hread⟩ := h.says_text
  have hname : String.ofList ['$'] = rootPath := rfl
  rw [Way.ofText?, cutAtMarks_root hcut]
  simp only [hname, if_true, hread]

/-- **No two ways have the same text**, if all keys on them are registered. -/
theorem IsRegistered.text_injective {way way' : Way} (h : way.IsRegistered)
    (h' : way'.IsRegistered) (htext : way.text = way'.text) : way = way' := by
  have hread := h.ofText?_text
  rw [htext, h'.ofText?_text] at hread
  exact (Option.some.inj hread).symm

end Way

/-- **All keys on the way to the first offence are registered**: each is that of a node. -/
theorem Value.FirstOffence.isRegistered {e : Value} {way : Way} {entries : List (String × Value)}
    (h : e.FirstOffence way entries) : way.IsRegistered := by
  intro word hword
  obtain ⟨front, back, rfl⟩ := List.append_of_mem hword
  have hreach := h.reached
  rw [Value.reach?_append] at hreach
  obtain ⟨inner, hfront, hback⟩ := Option.bind_eq_some_iff.mp hreach
  obtain ⟨argument, hargument, -⟩ := Option.bind_eq_some_iff.mp hback
  rw [Value.eq_object_of_enter? hargument] at hfront
  obtain ⟨name, hname, _, heq⟩ := h.isNode_of_before hfront (Way.before_append front _ back)
  cases heq
  exact hname

/-! ## What validation gives -/

namespace Value

/-- **Validation of an array stops at the first item that fails.** -/
theorem exists_of_validateItems_error {path : String} {err : EvalError} :
    ∀ {items : List Value} {i : Nat}, validateItems items i path = .error err →
      ∃ (j : Nat) (item : Value), items[j]? = some item ∧
        item.validateAt (path ++ positionText (i + j)) = .error err ∧
        ∀ k < j, ∀ other : Value, items[k]? = some other → ∃ p, other.validateAt p = .ok ()
  | [], _, h => by cases h
  | first :: rest, i, h => by
    rw [validateItems] at h
    rcases hfirst : first.validateAt (path ++ positionText i) with own | ⟨⟩
    · rw [hfirst] at h
      cases h
      exact ⟨0, first, rfl, hfirst, fun k hk => absurd hk (Nat.not_lt_zero k)⟩
    · rw [hfirst] at h
      obtain ⟨j, item, hitem, hfail, hbefore⟩ := exists_of_validateItems_error (i := i + 1) h
      rw [Nat.add_assoc, Nat.add_comm 1 j] at hfail
      refine ⟨j + 1, item, by simpa using hitem, hfail, fun k hk other hother => ?_⟩
      rcases k with _ | k
      · obtain rfl : first = other := by simpa using hother
        exact ⟨_, hfirst⟩
      · exact hbefore k (Nat.lt_of_succ_lt_succ hk) other (by simpa using hother)

theorem validateAt_literal {e : Value} (h : e.IsLiteral) (path : String) :
    e.validateAt path = .ok () := by
  rcases e with _ | _ | _ | _ | _ | _
  case array => exact h.elim
  case object => exact h.elim
  all_goals rfl

theorem validateAt_malformed {entries : List (String × Value)} (h : entries.length ≠ 1)
    (path : String) :
    (Value.object entries).validateAt path = .error (.malformedNode path entries.length) := by
  rcases entries with _ | ⟨first, _ | ⟨second, rest⟩⟩
  · rfl
  · exact absurd rfl h
  · rfl

/-- What validation may give for a document at a path. -/
def Judged (e : Value) (path : String) : Except EvalError Unit → Prop
  | .ok () => e.IsGrammatical
  | .error err => ∃ way entries, e.FirstOffence way entries ∧
      err.Describes (path ++ way.text) entries

namespace Judged

variable {path : String} {err : EvalError}

theorem here {entries : List (String × Value)} (h : err.Describes path entries) :
    (Value.object entries).Judged path (.error err) := by
  refine ⟨[], entries, .here h.not_isNode, ?_⟩
  rw [Way.text, String.append_empty]
  exact h

theorem item {items : List Value} {i : Nat} {item : Value} (hitem : items[i]? = some item)
    (hbefore : ∀ j < i, ∀ other, items[j]? = some other → other.IsGrammatical)
    (h : item.Judged (path ++ positionText i) (.error err)) :
    (Value.array items).Judged path (.error err) := by
  obtain ⟨way, entries, hfirst, hdescribes⟩ := h
  refine ⟨.position i :: way, entries, hfirst.item hitem hbefore, ?_⟩
  rw [Way.text, Sign.text, ← String.append_assoc]
  exact hdescribes

theorem argument {name : String} {argument : Value} (hname : name ∈ Operator.registry)
    {outcome : Except EvalError Unit} (h : argument.Judged (path ++ "." ++ name) outcome) :
    (Value.object [(name, argument)]).Judged path outcome := by
  rcases outcome with err | ⟨⟩
  · obtain ⟨way, entries, hfirst, hdescribes⟩ := h
    refine ⟨.word name :: way, entries, hfirst.argument hname, ?_⟩
    rw [Way.text, Sign.text, ← String.append_assoc, ← String.append_assoc]
    exact hdescribes
  · exact IsGrammatical.node hname h

end Judged

/-- **Validation judges every document**, one value inside it after another. -/
theorem judged_validateAt (e : Value) : ∀ path, e.Judged path (e.validateAt path) := by
  induction e using enterInduction with
  | h e ih =>
    intro path
    cases e using expressionCases with
    | literal e hliteral =>
      rw [validateAt_literal hliteral]
      exact IsGrammatical.of_isLiteral hliteral
    | array items =>
      -- An item that passes is judged where it stands, whatever path it is given there.
      have hpassed : ∀ {i : Nat} {item : Value}, items[i]? = some item →
          (∃ p, item.validateAt p = .ok ()) → item.IsGrammatical := by
        rintro i item hitem ⟨p, hp⟩
        have hjudged := ih (.position i) item hitem p
        rw [hp] at hjudged
        exact hjudged
      rw [validateAt]
      rcases houtcome : validateItems items 0 path with err | ⟨⟩
      · obtain ⟨i, item, hitem, hfail, hbefore⟩ := exists_of_validateItems_error houtcome
        have hjudged := ih (.position i) item hitem (path ++ positionText (0 + i))
        rw [hfail, Nat.zero_add] at hjudged
        exact .item hitem (fun j hj other hother => hpassed hother (hbefore j hj other hother))
          hjudged
      · exact IsGrammatical.array fun i item hitem =>
          hpassed hitem (validateItems_getElem? houtcome hitem)
    | node name argument =>
      rw [validateAt]
      split
      · rename_i hname
        exact .argument (Operator.isSome_ofName?_iff.mp hname)
          (ih (.word name) argument (enter?_object name argument) _)
      · rename_i hname
        exact .here (.unsupported argument (mt Operator.isSome_ofName?_iff.mpr hname))
    | malformed entries hlength =>
      rw [validateAt_malformed hlength]
      exact .here (.malformed hlength)

end Value

section Validate

variable {e : Value}

/-- **Validation succeeds** on what is grammatical. -/
theorem validate_eq_ok_iff : validate e = .ok () ↔ e.IsGrammatical := by
  have hjudged : e.Judged rootPath (validate e) := e.judged_validateAt rootPath
  constructor
  · intro h
    rw [h] at hjudged
    exact hjudged
  · intro h
    rcases hvalidate : validate e with err | ⟨⟩
    · rw [hvalidate] at hjudged
      obtain ⟨way, entries, hfirst, -⟩ := hjudged
      exact absurd (h way entries hfirst.reached) hfirst.offends
    · rfl

/-- **Validation fails** by the first offence. -/
theorem validate_eq_error_iff {err : EvalError} : validate e = .error err ↔
    ∃ way entries, e.FirstOffence way entries ∧ err.Describes (rootPath ++ way.text) entries := by
  have hjudged : e.Judged rootPath (validate e) := e.judged_validateAt rootPath
  constructor
  · intro h
    rw [h] at hjudged
    exact hjudged
  · rintro ⟨way, entries, hfirst, hdescribes⟩
    rcases hvalidate : validate e with err' | ⟨⟩
    · rw [hvalidate] at hjudged
      obtain ⟨way', entries', hfirst', hdescribes'⟩ := hjudged
      obtain ⟨rfl, rfl⟩ := hfirst.unique hfirst'
      rw [hdescribes.eq hdescribes']
    · exact absurd (validate_eq_ok_iff.mp hvalidate way entries hfirst.reached) hfirst.offends

end Validate

/-- **Validation accepts exactly its grammar and reports the first violation.**  It succeeds if and
only if every object in the document is a node with a registered operator.  It fails if and only if
there is a first object that is none, with the error that describes that object at its way; the path
is read back as that way, which leads to the object.  Different objects have different paths, if the
keys above them are registered. -/
theorem validate_reports_first_offence (e : Value) :
    (validate e = .ok () ↔
      ∀ way entries, e.reach? way = some (.object entries) → IsNode entries) ∧
    (∀ err, validate e = .error err ↔
      ∃ way entries, e.FirstOffence way entries ∧ err.Describes (rootPath ++ way.text) entries) ∧
    (∀ way entries, e.FirstOffence way entries →
      Way.ofText? (rootPath ++ way.text) = some way) ∧
    ∀ way way' entries entries', e.reach? way = some (.object entries) →
      e.reach? way' = some (.object entries') → way.IsRegistered → way'.IsRegistered →
        way ≠ way' → rootPath ++ way.text ≠ rootPath ++ way'.text :=
  ⟨validate_eq_ok_iff, fun _ => validate_eq_error_iff,
    fun _ _ hfirst => hfirst.isRegistered.ofText?_text,
    fun _ _ _ _ _ _ hway hway' hne heq =>
      hne (hway.text_injective hway' ((String.append_right_inj _).mp heq))⟩

/-- Under a bare argument inside an array, behind a node without fault and in front of an object with
two keys. -/
theorem validate_reports_first_offence_nested :
    let e : Value := .object [("and", .array [.object [("var", .string "x")],
      .array [.object [("!", .object [("xor", .object [])])]],
      .object [("a", .null), ("b", .null)]])]
    let way : Way := [.word "and", .position 1, .position 0, .word "!"]
    validate e = .error (.unsupportedOperator "xor" "$.and[1][0].!") ∧
      e.FirstOffence way [("xor", .object [])] ∧
      Way.ofText? "$.and[1][0].!" = some way := by
  intro e way
  obtain ⟨-, hfails, hread, -⟩ := validate_reports_first_offence e
  have herr : validate e = .error (.unsupportedOperator "xor" "$.and[1][0].!") := rfl
  have hway : Way.ofText? "$.and[1][0].!" = some way := rfl
  obtain ⟨found, entries, hfirst, hdescribes⟩ := (hfails _).mp herr
  have hback := hread found entries hfirst
  generalize rootPath ++ found.text = path at hdescribes hback
  cases hdescribes with
  | unsupported argument hname =>
    obtain rfl : way = found := Option.some.inj (hway.symm.trans hback)
    cases hfirst.reached
    exact ⟨herr, hfirst, hway⟩

end DecisionRules
