import DecisionRules.Proofs.Rule.Unordered

/-!
# Proofs/Rule/KeyOrder — what the order of keys in a context decides

Whatever an evaluation without order does other than stop is also done, up to the order of keys, by
the evaluation in any context that differs in the order of keys alone (`Value.run_tracks`).  What is
left for that is the two operations that look at an order: a search in a text, which shows none if
no object in what is searched for has two keys, and a scan of keys, whose answer is put together
from what the predicate says of each (`Rule.scanElements_eq`).

So the order of keys decides nothing where nothing asks for it
(`evaluate_agrees_of_not_asksForOrder`), and where something does, it may decide
(`evaluate_depends_on_order`).
-/

namespace DecisionRules

open Recorded (Tracks)

namespace Rule

variable {c d : Value} {arguments arguments' : Arguments}

/-! ## Searching -/

theorem isIn_tracks {needle needle' haystack haystack' : Value} (hneedle : needle.Alike needle')
    (hhaystack : haystack.Alike haystack') :
    Tracks Eq (Recorded.ofOption (.invalidArguments .membership (.notSearchable haystack))
        (isInUnordered? needle haystack))
      (Recorded.ofOption (.invalidArguments .membership (.notSearchable haystack'))
        (isIn? needle' haystack')) := by
  cases hhaystack using Value.Alike.split with
  | string s =>
    rw [isInUnordered?]
    split
    case isTrue => exact .stops trivial
    case isFalse horder =>
      rw [hneedle.eq_of_hasOrder_eq_false (Bool.eq_false_iff.mpr horder)]
      exact .refl _
  | array xs ys h =>
    exact .gives (any_eq_of_forall₂ h fun _ _ hvw => hvw.beq_eq hneedle)
  | object xs ys h =>
    cases hneedle using Value.Alike.split with
    | string key => exact .gives (isSome_eq_of_rel (h.lookup key))
    | _ => exact .gives rfl
  | _ => exact .fails rfl

theorem membership_tracks (h : c.Alike d) (hargs : arguments.Track arguments') (path : String) :
    Tracks Applied.Alike (membershipUnordered arguments ⟨c, path⟩)
      (membership arguments' ⟨d, path⟩) := by
  refine Tracks.bind (Likeness.unordered.asPair_alike hargs _ _) ?_
  rintro ⟨needle, haystack⟩ ⟨needle', haystack'⟩
    ⟨(hneedle : needle.Track needle'), (hhaystack : haystack.Track haystack')⟩
  refine (hneedle.run h _).bind fun v w hvw => ?_
  refine (hhaystack.run h _).bind fun x y hxy => ?_
  refine (isIn_tracks hvw hxy).bind fun found _ hfound => .pure ?_
  exact hfound ▸ .bool found

/-! ## Scanning keys

If the predicate says the same of a key at every position, then the answer of a scan is put together
from what it says of each, and does not depend on the order. -/

/-- The answer for elements with these verdicts. -/
def combine : Quantifier → List Bool → Bool
  | .all, verdicts => verdicts.all id
  | .any, verdicts => verdicts.any id
  | .none, verdicts => !verdicts.any id

theorem combine_cons (q : Quantifier) (verdict : Bool) (rest : List Bool) :
    combine q (verdict :: rest) = (q.decides verdict).getD (combine q rest) := by
  cases q <;> cases verdict <;> simp [combine, Quantifier.decides]

theorem combine_perm (q : Quantifier) {verdicts verdicts' : List Bool}
    (h : verdicts.Perm verdicts') : combine q verdicts = combine q verdicts' := by
  cases q with
  | all => exact h.all_eq
  | any => exact h.any_eq
  | none => exact congrArg (!·) h.any_eq

theorem verdict?_eq_some_iff {predicate : Term} {place : Place} {item : Value} {i : Nat}
    {verdict : Bool} : verdict? predicate place item i = some verdict ↔
      ∃ outcome steps, outcome.truthy = verdict ∧
        predicate.run ⟨bindItem place.context item i, (place.child (.predicate i)).path⟩ =
          .ok (outcome, steps) := by
  rw [verdict?]
  rcases predicate.run ⟨bindItem place.context item i, (place.child (.predicate i)).path⟩ with
    err | ⟨outcome, steps⟩
  · simp
  · constructor
    · intro h
      exact ⟨outcome, steps, Option.some.inj h, rfl⟩
    · rintro ⟨_, _, rfl, h⟩
      cases h
      rfl

/-- **Verdicts that do not depend on the position** are put together. -/
theorem scanElements_eq (q : Quantifier) {predicate : Term} {place : Place}
    (verdict : Value → Bool) :
    ∀ (elements : List Value) (i : Nat), (∀ j item, elements[j]? = some item →
        verdict? predicate place item (i + j) = some (verdict item)) →
      ∃ records steps, scanElements q predicate place i elements =
        .ok ((combine q (elements.map verdict), records), steps)
  | [], i, _ => ⟨[], [], by cases q <;> rfl⟩
  | item :: rest, i, h => by
    have hrest : ∀ j other, rest[j]? = some other →
        verdict? predicate place other (i + 1 + j) = some (verdict other) := fun j other hj => by
      rw [Nat.add_assoc, Nat.add_comm 1 j]
      exact h (j + 1) other hj
    obtain ⟨outcome, before, htruthy, hrun⟩ := verdict?_eq_some_iff.mp (h 0 item rfl)
    rw [List.map_cons, combine_cons, ← htruthy]
    let record : Value := .object [("index", .ofInt i), ("item", item), ("result", outcome)]
    rcases hdecides : q.decides outcome.truthy with _ | answer
    · obtain ⟨records, steps, hscan⟩ := scanElements_eq q verdict rest (i + 1) hrest
      refine ⟨record :: records, before ++ (steps ++ []), Recorded.bind_of_ok hrun ?_⟩
      rw [hdecides]
      exact Recorded.bind_of_ok hscan rfl
    · refine ⟨[record], before ++ [], Recorded.bind_of_ok hrun ?_⟩
      rw [hdecides]
      rfl

theorem verdict?_tracks (h : c.Alike d) {t u : Term} (hpredicate : t.Track u) (path : String)
    {item : Value} (hitem : item.WellFormed) {i : Nat} {verdict : Bool}
    (hverdict : verdict? t ⟨c, path⟩ item i = some verdict) :
    verdict? u ⟨d, path⟩ item i = some verdict := by
  obtain ⟨outcome, steps, rfl, hrun⟩ := verdict?_eq_some_iff.mp hverdict
  have htracks := hpredicate.run (bindItem_alike h (.refl hitem) i)
    (Place.child ⟨c, path⟩ (.predicate i)).path
  rw [hrun] at htracks
  generalize hother : u.run ⟨bindItem d item i, (Place.child ⟨c, path⟩ (.predicate i)).path⟩ = y
    at htracks
  cases htracks with
  | gives halike => exact verdict?_eq_some_iff.mpr ⟨_, _, halike.truthy_eq.symm, hother⟩

theorem isSteady_spec {predicate : Term} {place : Place} {elements : List Value}
    (h : isSteady predicate place elements = true) {item : Value} (hitem : item ∈ elements)
    {i : Nat} (hi : i < elements.length) : verdict? predicate place item i =
      some ((verdict? predicate place item 0).getD false) := by
  have hall := List.all_eq_true.mp (List.all_eq_true.mp h item hitem) i (List.mem_range.mpr hi)
  rw [Bool.and_eq_true, beq_iff_eq] at hall
  obtain ⟨hsome, heq⟩ := hall
  obtain ⟨verdict, hverdict⟩ := Option.isSome_iff_exists.mp hsome
  rw [← heq, hverdict, Option.getD_some]

/-- Elements that are alike, one by one, have the same answer. -/
theorem scanElements_tracks (h : c.Alike d) (q : Quantifier) {t u : Term} (hpredicate : t.Track u)
    (path : String) {xs ys : List Value} (helements : List.Forall₂ Value.Alike xs ys) :
    Tracks (fun p q => p.1 = q.1) (scanElements q t ⟨c, path⟩ 0 xs)
      (scanElements q u ⟨d, path⟩ 0 ys) :=
  Tracks.mono (Likeness.unordered.scanElements_alike h q hpredicate path helements 0)
    fun _ _ hanswer => hanswer.1

/-- **Keys that are looked at in any order**: the same answer, whichever order it is. -/
theorem scanElements_tracks_of_isSteady (h : c.Alike d) (q : Quantifier) {t u : Term}
    (hpredicate : t.Track u) (path : String) {keys keys' : List Value} (hperm : keys.Perm keys')
    (hkeys : ∀ key ∈ keys, key.WellFormed) (hsteady : isSteady t ⟨c, path⟩ keys = true) :
    Tracks (fun p q => p.1 = q.1) (scanElements q t ⟨c, path⟩ 0 keys)
      (scanElements q u ⟨d, path⟩ 0 keys') := by
  let verdict (item : Value) : Bool := (verdict? t ⟨c, path⟩ item 0).getD false
  have hverdict {item : Value} (hitem : item ∈ keys) {i : Nat} (hi : i < keys.length) :
      verdict? t ⟨c, path⟩ item i = some (verdict item) := isSteady_spec hsteady hitem hi
  obtain ⟨records, steps, hscan⟩ := scanElements_eq q verdict keys 0
    fun j item hj => by
      rw [Nat.zero_add]
      exact hverdict (List.mem_of_getElem? hj) (List.getElem?_eq_some_iff.mp hj).1
  obtain ⟨records', steps', hscan'⟩ := scanElements_eq q verdict keys' 0
    fun j item hj => by
      have hitem := hperm.mem_iff.mpr (List.mem_of_getElem? hj)
      have hj' := hperm.length_eq ▸ (List.getElem?_eq_some_iff.mp hj).1
      rw [Nat.zero_add]
      exact verdict?_tracks h hpredicate path (hkeys item hitem) (hverdict hitem hj')
  rw [hscan, hscan']
  exact .gives (combine_perm q (hperm.map verdict))

theorem elements?_object (entries : List (String × Value)) :
    elements? (.object entries) = some ((entries.map Prod.fst).map .string) := by
  rw [List.map_map]
  rfl

theorem elements_tracks (h : c.Alike d) (q : Quantifier) {t u : Term} (hpredicate : t.Track u)
    (path : String) {sequence sequence' : Value} (hsequence : sequence.Alike sequence') :
    Tracks (fun p q => p.1 = q.1)
      (Recorded.ofOption (.invalidArguments (.quantify q) (.notIterable sequence))
        (elementsUnordered? t ⟨c, path⟩ sequence) >>= scanElements q t ⟨c, path⟩ 0)
      (Recorded.ofOption (.invalidArguments (.quantify q) (.notIterable sequence'))
        (elements? sequence') >>= scanElements q u ⟨d, path⟩ 0) := by
  cases hsequence using Value.Alike.split with
  | array xs ys hitems =>
    change Tracks _ (pure xs >>= _) (pure ys >>= _)
    rw [Recorded.pure_bind, Recorded.pure_bind]
    exact scanElements_tracks h q hpredicate path hitems
  | object xs ys hentries =>
    rw [elementsUnordered?, elements?_object, elements?_object, Option.filter_some]
    split
    case isFalse => exact .stops trivial
    case isTrue hscan =>
      change Tracks _ (pure _ >>= _) (pure _ >>= _)
      rw [Recorded.pure_bind, Recorded.pure_bind]
      rcases Bool.or_eq_true_iff.mp hscan with hfew | hsteady
      · rcases hentries.eq_of_length_le (decide_eq_true_iff.mp hfew) with
          ⟨rfl, rfl⟩ | ⟨key, v, w, rfl, rfl, -⟩
        · exact scanElements_tracks h q hpredicate path .nil
        · exact scanElements_tracks h q hpredicate path (.cons (.string key) .nil)
      · refine scanElements_tracks_of_isSteady h q hpredicate path
          (hentries.perm_keys.map Value.string) (fun key hkey => ?_) hsteady
        obtain ⟨s, -, rfl⟩ := List.mem_map.mp hkey
        trivial
  | _ => exact .fails rfl

theorem quantification_tracks (h : c.Alike d) (hargs : arguments.Track arguments')
    (q : Quantifier) (path : String) :
    Tracks Applied.Alike (quantificationUnordered q arguments ⟨c, path⟩)
      (quantification q arguments' ⟨d, path⟩) := by
  refine Tracks.bind (Likeness.unordered.asPair_alike hargs _ _) ?_
  rintro ⟨sequence, predicate⟩ ⟨sequence', predicate'⟩
    ⟨(hsequence : sequence.Track sequence'), hpredicate⟩
  refine (hsequence.run h _).bind fun v w hvw => ?_
  dsimp only
  rw [← Recorded.bind_assoc, ← Recorded.bind_assoc]
  refine (elements_tracks h q hpredicate path hvw).bind ?_
  rintro ⟨answer, records⟩ ⟨_, records'⟩ ⟨rfl⟩
  exact .pure (.bool answer)

end Rule

/-! ## Operators -/

open Rule in
/-- **Every operator goes on in alike contexts as it does without order**, up to the order of keys,
unless it asks for one. -/
theorem Operator.apply_tracks {c d : Value} {arguments arguments' : Arguments} (h : c.Alike d)
    (hargs : arguments.Track arguments') (operator : Operator) (path : String) :
    Tracks Applied.Alike (operator.applyUnordered arguments ⟨c, path⟩)
      (operator.apply arguments' ⟨d, path⟩) := by
  have hshared (hmembership : operator ≠ .membership) (hquantify : ∀ q, operator ≠ .quantify q) :
      Tracks Applied.Alike (operator.apply arguments ⟨c, path⟩)
        (operator.apply arguments' ⟨d, path⟩) :=
    Likeness.unordered.apply_alike_of_ne (Likeness.arithmetic_of_eq fun _ _ => id) h hargs
      hmembership hquantify path
  cases operator with
  | membership => exact membership_tracks h hargs path
  | quantify q => exact quantification_tracks h hargs q path
  | _ => exact hshared Operator.noConfusion fun _ => Operator.noConfusion

/-! ## Expressions -/

theorem runNamed_tracks {c d : Value} {arguments arguments' : Arguments} (h : c.Alike d)
    (hargs : arguments.Track arguments') (name path : String) :
    Tracks Value.Alike (runNamedUnordered name arguments ⟨c, path⟩)
      (runNamed name arguments' ⟨d, path⟩) := by
  rw [runNamedUnordered, runNamed]
  rcases Operator.ofName? name with _ | operator
  · exact .fails rfl
  · have happly := operator.apply_tracks h hargs path
    dsimp only
    rw [Operator.runNode]
    generalize operator.applyUnordered arguments ⟨c, path⟩ = x at happly
    generalize operator.apply arguments' ⟨d, path⟩ = y at happly
    cases happly with
    | stops hasks => exact .stops hasks
    | fails hkind => exact .fails hkind
    | gives halike => exact .gives halike

namespace Value

mutual

theorem run_tracks : ∀ (e : Value) {c d : Value}, c.Alike d → ∀ path,
    Tracks Alike (e.runUnordered ⟨c, path⟩) (e.run ⟨d, path⟩)
  | .object [(name, argument)], c, d, h, path => by
    have hbare : Arguments.Track (.bare ⟨argument, argument.runUnordered⟩)
        (.bare ⟨argument, argument.run⟩) := .bare ⟨rfl, run_tracks argument⟩
    cases argument with
    | array items => exact runNamed_tracks h (.list (terms_track items)) name path
    | _ => exact runNamed_tracks h hbare name path
  | .object [], _, _, _, _ => .fails rfl
  | .object ((_, argument) :: _ :: _), _, _, _, _ => by
    cases argument <;> exact .fails rfl
  | .array items, _, _, h, path =>
    (runItems_tracks items 0 h path).bind fun _ _ hvalues => .pure (.array hvalues)
  | .null, _, _, _, _ => .pure (.refl trivial)
  | .bool b, _, _, _, _ => .pure (.bool b)
  | .number x, _, _, _, _ => .pure (.number x)
  | .string s, _, _, _, _ => .pure (.string s)
  termination_by structural e => e

theorem runItems_tracks : ∀ (items : List Value) (i : Nat) {c d : Value}, c.Alike d → ∀ path,
    Tracks (List.Forall₂ Alike) (runItemsUnordered items i ⟨c, path⟩) (runItems items i ⟨d, path⟩)
  | [], _, _, _, _, _ => .pure .nil
  | e :: rest, i, _, _, h, path =>
    (run_tracks e h _).bind fun _ _ hvw =>
      (runItems_tracks rest (i + 1) h path).bind fun _ _ hmore => .pure (.cons hvw hmore)
  termination_by structural items => items

theorem terms_track : ∀ items : List Value,
    List.Forall₂ Term.Track (termsUnordered items) (terms items)
  | [] => .nil
  | e :: rest => .cons ⟨rfl, run_tracks e⟩ (terms_track rest)
  termination_by structural items => items

end

end Value

/-! ## Contexts that differ in the order of keys -/

/-- **The order of keys decides nothing where nothing asks for it.**  Unless the evaluation of an
expression comes upon a text that is searched for a value whose keys have an order, or upon a
quantifier for which it matters in which order it looks at keys, it succeeds in a context just when
it does in one that differs only in the order of keys.  The results differ in the order of keys at
most, so they are equal, unless one is not even equal to itself since it holds what is not a number.
The errors are of the same kind, and differ in the order of keys at most. -/
theorem evaluate_agrees_of_not_asksForOrder (e c d : Value) (hc : c.WellFormed)
    (hd : d.WellFormed) (horder : c.sortKeys = d.sortKeys) (hasks : ¬ e.AsksForOrder c) :
    (∃ r s, evaluate e c = .ok r ∧ evaluate e d = .ok s ∧
        r.result.sortKeys = s.result.sortKeys ∧
        (r.result == s.result) = (r.result == r.result)) ∨
      ∃ err err', evaluate e c = .error err ∧ evaluate e d = .error err' ∧
        err.sortKeys = err'.sortKeys := by
  have hleft := e.run_tracks (Value.Alike.refl hc) rootPath
  have hright := e.run_tracks ⟨hc, hd, horder⟩ rootPath
  rw [evaluate, evaluate]
  generalize hrun : e.runUnordered ⟨c, rootPath⟩ = x at hleft hright
  generalize e.run ⟨c, rootPath⟩ = y at hleft
  generalize e.run ⟨d, rootPath⟩ = z at hright
  cases hleft with
  | stops h => exact absurd ⟨_, hrun, h⟩ hasks
  | gives hr =>
    cases hright with
    | gives hs =>
      have halike : Value.Alike _ _ :=
        ⟨hr.right, hs.right, hr.sortKeys_eq.symm.trans hs.sortKeys_eq⟩
      exact .inl ⟨_, _, rfl, rfl, halike.sortKeys_eq,
        ((Value.Alike.refl halike.left).beq_eq halike).symm⟩
  | fails h =>
    cases hright with
    | stops hstops => exact absurd ⟨_, hrun, hstops⟩ hasks
    | fails h' => exact .inr ⟨_, _, rfl, rfl, h.symm.trans h'⟩

/-- A quantifier that finds one of two keys, wherever it stands, a search for a key, and an object
for the result; the keys come in another order at both depths. -/
theorem evaluate_agrees_of_not_asksForOrder_steady :
    let o : Value := .object [("var", .string "o")]
    let e : Value := .object [("and", .array
      [.object [("bl_any", .array [o, .object [("in", .array
          [.object [("var", .string "item")], .array [.string "b", .string "c"]])]])],
        .object [("in", .array [.string "a", o])], o])]
    let c : Value := .object [("o", .object [("a", .number 1), ("b", .null)]), ("z", .bool true)]
    let d : Value := .object [("z", .bool true), ("o", .object [("b", .null), ("a", .number 1)])]
    c.WellFormed ∧ d.WellFormed ∧ c.sortKeys = d.sortKeys ∧ ¬ e.AsksForOrder c ∧
      ((∃ r s, evaluate e c = .ok r ∧ evaluate e d = .ok s ∧
          r.result.sortKeys = s.result.sortKeys ∧
          (r.result == s.result) = (r.result == r.result)) ∨
        ∃ err err', evaluate e c = .error err ∧ evaluate e d = .error err' ∧
          err.sortKeys = err'.sortKeys) := by
  intro o e c d
  have hc : c.WellFormed := by simp [c, Value.WellFormed, Value.WellFormedEntries]
  have hd : d.WellFormed := by simp [d, Value.WellFormed, Value.WellFormedEntries]
  have horder : c.sortKeys = d.sortKeys := rfl
  have hasks : ¬ e.AsksForOrder c := by
    rintro ⟨err, herr, -⟩
    have hvalue : (e.runUnordered ⟨c, rootPath⟩).outcome.isOk = true := by decide +kernel
    rw [herr] at hvalue
    cases hvalue
  exact ⟨hc, hd, horder, hasks, evaluate_agrees_of_not_asksForOrder e c d hc hd horder hasks⟩

/-- **Where something asks for the order of keys, it may decide**: whether an object is printed in a
text depends on how its keys come, and so does whether a key comes first. -/
theorem evaluate_depends_on_order :
    let c : Value := .object [("o", .object [("a", .number 1), ("b", .number 2)])]
    let d : Value := .object [("o", .object [("b", .number 2), ("a", .number 1)])]
    let o : Value := .object [("var", .string "o")]
    let searched : Value := .object [("in", .array [o, .string "\x7b\"a\":1,\"b\":2\x7d"])]
    let scanned : Value := .object [("bl_any", .array [o, .object [("and", .array
      [.object [("==", .array [.object [("var", .string "item")], .string "a"])],
        .object [("==", .array [.object [("var", .string "index")], .number 0])]])]])]
    c.WellFormed ∧ d.WellFormed ∧ c.sortKeys = d.sortKeys ∧
      ∀ e ∈ [searched, scanned], ∃ r s, evaluate e c = .ok r ∧ evaluate e d = .ok s ∧
        (r.result == s.result) = false := by
  intro c d o searched scanned
  have hc : c.WellFormed := by simp [c, Value.WellFormed, Value.WellFormedEntries]
  have hd : d.WellFormed := by simp [d, Value.WellFormed, Value.WellFormedEntries]
  refine ⟨hc, hd, rfl, fun e he => ?_⟩
  have hboth : ∀ e ∈ [searched, scanned], ((evaluate e c).toOption.bind fun r =>
      (evaluate e d).toOption.map fun s => r.result == s.result) = some false := by
    simp only [List.forall_mem_cons]
    exact ⟨by decide +kernel, by decide +kernel, fun _ h => absurd h List.not_mem_nil⟩
  have h := hboth e he
  rcases hr : evaluate e c with err | r
  · rw [hr] at h
    cases h
  · rcases hs : evaluate e d with err | s
    · rw [hr, hs] at h
      cases h
    · rw [hr, hs] at h
      exact ⟨r, s, rfl, rfl, Option.some.inj h⟩

end DecisionRules
