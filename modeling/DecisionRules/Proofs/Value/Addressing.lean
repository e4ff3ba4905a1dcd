import DecisionRules.Proofs.Json.Numeral
import DecisionRules.Proofs.Value.KeyOrder

/-!
# Proofs/Value/Addressing — every part of a value has a path, and every path is read in one way

A part of a value is reached by steps, into an object by a key and into an array by a position
(`Value.Contains`).  Their path is what they are written as, with dots between them.  Splitting a
path at its dots undoes that unless a key has a dot in it (`Value.segments_join`), so the path of
a part leads back to the part.

A path need not come from steps: any text is one.  What it leads to is said by `Value.partAt?`,
which knows no bound on numbers.  Positions are read in sixty-four bits, and a longer numeral is
refused rather than looked up; but no array is long enough to tell these apart
(`Value.child?_eq_partIn?`).
-/

namespace DecisionRules

/-! ## Numerals in a path -/

/-- At least one digit of ASCII, and nothing else. -/
def IsNumeral (segment : String) : Prop := segment ≠ "" ∧ ∀ c ∈ segment.toList, c.isDigit = true

instance (segment : String) : Decidable (IsNumeral segment) :=
  @instDecidableAnd _ _ _ (List.decidableBAll _ _)

/-- The natural number that a numeral writes in decimal. -/
def numeralValue (segment : String) : Nat := Nat.ofDigitChars 10 segment.toList 0

/-- A natural in decimal, with zeros before it or without. -/
def numeralText (zeros n : Nat) : String :=
  String.ofList (List.replicate zeros '0' ++ Number.natText n)

theorem isNumeral_numeralText (zeros n : Nat) : IsNumeral (numeralText zeros n) := by
  constructor
  · intro hempty
    have hnil := congrArg String.toList hempty
    simp [numeralText, Number.natText_ne_nil] at hnil
  · intro c hc
    rw [numeralText, String.toList_ofList, List.mem_append] at hc
    rcases hc with hzero | hdigit
    · obtain rfl := List.eq_of_mem_replicate hzero
      rfl
    · rw [← Number.isDigit_eq]
      exact Number.isDigit_of_mem_natText hdigit

/-- **Leading zeros count for nothing.** -/
theorem numeralValue_numeralText (zeros n : Nat) : numeralValue (numeralText zeros n) = n := by
  rw [numeralValue, ← Number.natOfDigits_eq_ofDigitChars, numeralText, String.toList_ofList,
    Number.natOfDigits_append, Number.natOfDigits_replicate_zero, Number.natOfDigits_natText,
    Nat.zero_mul, Nat.zero_add]

theorem IsNumeral.dot_not_mem {segment : String} (h : IsNumeral segment) :
    '.' ∉ segment.toList := by
  intro hdot
  exact absurd (h.2 '.' hdot) (by decide)

/-- What is looked for in a numeral before it is read. -/
theorem isNumeral_iff (segment : String) :
    (segment.toList.isEmpty || !segment.toList.all Number.isDigit) = false ↔ IsNumeral segment := by
  simp [IsNumeral, Number.isDigit_eq]

/-- A numeral is read to its end, since it starts with a digit and not with a sign. -/
theorem IsNumeral.unsigned?_eq {segment : String} (h : IsNumeral segment) :
    Integer.unsigned? segment =
      if numeralValue segment < 2 ^ 64 then some (numeralValue segment) else none := by
  have hdigits : Integer.digits? segment.toList = some (numeralValue segment) := by
    rw [Integer.digits?, (isNumeral_iff segment).mpr h, numeralValue,
      Number.natOfDigits_eq_ofDigitChars]
    rfl
  unfold Integer.unsigned?
  split
  · rename_i rest hsign
    exact absurd (h.2 '+' (hsign ▸ List.mem_cons_self)) (by decide)
  · simp only [hdigits, Option.filter_some, decide_eq_true_eq, Nat.pow_eq]

namespace Value

/-- **A position is a numeral of sixty-four bits.** -/
theorem position?_eq (segment : String) : position? segment =
    if IsNumeral segment ∧ numeralValue segment < 2 ^ 64 then some (numeralValue segment)
    else none := by
  rw [position?]
  by_cases h : IsNumeral segment
  · simp only [(isNumeral_iff segment).mpr h, h.unsigned?_eq, h, true_and]
    rfl
  · have hguard := mt (isNumeral_iff segment).mp h
    simp only [Bool.not_eq_false] at hguard
    simp only [hguard, if_true, h, false_and, if_false]

/-! ## Parts and the steps to them -/

/-- A step from a value into one of its parts. -/
inductive Step
  /-- Into an object, to the entry with a key. -/
  | key (key : String)
  /-- Into an array, to the item at a position. -/
  | position (i : Nat)

/-- A step as it is written in a path. -/
def Step.text : Step → String
  | .key name => name
  | .position i => numeralText 0 i

/-- Steps as they are written in a path, with dots between them. -/
def pathText (steps : List Step) : String := ".".intercalate (steps.map Step.text)

/-- What is reached in a value by steps. -/
inductive Contains : Value → List Step → Value → Prop
  | self (v : Value) : Contains v [] v
  | entry {entries : List (String × Value)} {key : String} {v part : Value} {rest : List Step}
    (mem : (key, v) ∈ entries) (inner : Contains v rest part) :
    Contains (.object entries) (.key key :: rest) part
  | item {items : List Value} {i : Nat} {v part : Value} {rest : List Step}
    (stands : items[i]? = some v) (inner : Contains v rest part) :
    Contains (.array items) (.position i :: rest) part

/-- No array in a value has more items than there are numbers of sixty-four bits. -/
def Addressable (v : Value) : Prop :=
  ∀ steps items, v.Contains steps (.array items) → items.length ≤ 2 ^ 64

theorem addressable_object_iff {entries : List (String × Value)} :
    (Value.object entries).Addressable ↔ ∀ entry ∈ entries, entry.2.Addressable := by
  constructor
  · intro h entry mem steps items inner
    exact h (.key entry.1 :: steps) items (.entry mem inner)
  · intro h steps items hcontains
    cases hcontains with
    | entry mem inner => exact h _ mem _ items inner

theorem addressable_array_iff {items : List Value} : (Value.array items).Addressable ↔
    items.length ≤ 2 ^ 64 ∧ ∀ v ∈ items, v.Addressable := by
  constructor
  · intro h
    refine ⟨h [] items (.self _), fun v hv steps more inner => ?_⟩
    obtain ⟨i, stands⟩ := List.getElem?_of_mem hv
    exact h (.position i :: steps) more (.item stands inner)
  · rintro ⟨hlength, h⟩ steps more hcontains
    cases hcontains with
    | self => exact hlength
    | item stands inner => exact h _ (List.mem_of_getElem? stands) _ more inner

/-! ## What a path leads to -/

/-- The part of a value that a segment picks, if any natural number is a position. -/
def partIn? : Value → String → Option Value
  | .object entries, key => entries.lookup key
  | .array items, segment => if IsNumeral segment then items[numeralValue segment]? else none
  | _, _ => none

/-- The part of a value at a path: the value itself at the empty one, otherwise what the texts
between the dots pick one after the other. -/
def partAt? (v : Value) (path : String) : Option Value :=
  if path = "" then some v
  else ((path.toList.splitOn '.').map String.ofList).foldlM partIn? v

/-- **The bound on positions cannot be seen.** -/
theorem child?_eq_partIn? {v : Value} (h : v.Addressable) (segment : String) :
    v.child? segment = v.partIn? segment := by
  cases v with
  | array items =>
    have hlength := (addressable_array_iff.mp h).1
    rw [child?, partIn?, position?_eq]
    by_cases hnumeral : IsNumeral segment
    · by_cases hlt : numeralValue segment < 2 ^ 64
      · simp only [hnumeral, hlt, and_self, if_true, Option.bind_some]
      · have hnone : items[numeralValue segment]? = none :=
          List.getElem?_eq_none (by omega)
        simp only [hnumeral, hlt, and_false, if_false, if_true, Option.bind_none, hnone]
    · simp only [hnumeral, false_and, if_false, Option.bind_none]
  | _ => rfl

theorem Addressable.child? {v w : Value} (h : v.Addressable) {segment : String}
    (hchild : v.child? segment = some w) : w.Addressable := by
  cases v with
  | array items =>
    obtain ⟨i, -, hitem⟩ := Option.bind_eq_some_iff.mp hchild
    exact (addressable_array_iff.mp h).2 w (List.mem_of_getElem? hitem)
  | object entries => exact addressable_object_iff.mp h _ (KeyMap.mem_of_lookup hchild)
  | _ => cases hchild

theorem walk_eq_foldlM (segments : List String) : ∀ {v : Value}, v.Addressable →
    v.walk segments = segments.foldlM partIn? v := by
  induction segments with
  | nil => exact fun _ => rfl
  | cons segment rest ih =>
    intro v h
    rw [walk, List.foldlM_cons, ← child?_eq_partIn? h]
    rcases hchild : v.child? segment with _ | w
    · rfl
    · exact ih (h.child? hchild)

/-! ## Splitting at dots -/

theorem splitAtDots_eq_splitOn (cs : List Char) : splitAtDots cs = cs.splitOn '.' := by
  induction cs with
  | nil => rfl
  | cons c cs ih =>
    rw [splitAtDots, List.splitOn_cons_eq_if_modifyHead, ih]
    by_cases hdot : c = '.'
    · simp only [hdot, if_true, beq_self_eq_true]
    · rw [if_neg hdot, if_neg (by simpa using hdot)]
      obtain ⟨segment, rest, hcons⟩ := List.exists_cons_of_ne_nil (List.splitOn_ne_nil '.' cs)
      rw [hcons, List.modifyHead_cons]

/-- **Splitting a path undoes joining its segments**, if none of them has a dot in it. -/
theorem segments_join {texts : List String} (hne : texts ≠ [])
    (hdot : ∀ text ∈ texts, '.' ∉ text.toList) : segments (".".intercalate texts) = texts := by
  have hsplit : splitAtDots (".".intercalate texts).toList = texts.map String.toList := by
    rw [splitAtDots_eq_splitOn, String.toList_intercalate]
    refine List.splitOn_intercalate '.' (fun cs hcs => ?_) (by simpa using hne)
    obtain ⟨text, htext, rfl⟩ := List.mem_map.mp hcs
    exact hdot text htext
  rw [segments, hsplit, List.map_map]
  exact (List.map_congr_left fun text _ => String.ofList_toList).trans (List.map_id texts)

/-- The segments of two paths with a dot between them. -/
theorem segments_append (p q : String) : segments (p ++ "." ++ q) = segments p ++ segments q := by
  have htoList : (p ++ "." ++ q).toList = p.toList ++ '.' :: q.toList := by
    simp only [String.toList_append, List.append_assoc]
    rfl
  rw [segments, segments, segments, htoList, splitAtDots_eq_splitOn, splitAtDots_eq_splitOn,
    splitAtDots_eq_splitOn, List.splitOn_append_cons_self, List.map_append]

theorem segments_of_no_dot {text : String} (hdot : '.' ∉ text.toList) : segments text = [text] := by
  rw [segments, splitAtDots_eq_splitOn, List.splitOn_eq_singleton hdot, List.map_singleton,
    String.ofList_toList]

/-- A path of one segment leads to the entry of an object with that key. -/
theorem resolve_key {key : String} (hkey : key ≠ "") (hdot : '.' ∉ key.toList)
    (entries : List (String × Value)) : (Value.object entries).resolve key = entries.lookup key := by
  rw [resolve, if_neg (by simpa using hkey), segments_of_no_dot hdot]
  exact Option.bind_fun_some _

/-- A path behind a first segment is followed in the entry of the object with that key. -/
theorem resolve_key_append {key path : String} (hdot : '.' ∉ key.toList) (hpath : path ≠ "")
    (entries : List (String × Value)) : (Value.object entries).resolve (key ++ "." ++ path) =
      (entries.lookup key).bind (·.resolve path) := by
  have hne : ¬ (key ++ "." ++ path).isEmpty := by
    simp [String.isEmpty_iff, hpath]
  rw [resolve, if_neg hne, segments_append, segments_of_no_dot hdot]
  simp only [resolve, String.isEmpty_iff, hpath, if_false]
  rfl

/-- **Resolving a path** is following it without a bound on positions. -/
theorem resolve_eq_partAt? {v : Value} (h : v.Addressable) (path : String) :
    v.resolve path = v.partAt? path := by
  rw [resolve, partAt?, segments, walk_eq_foldlM _ h, splitAtDots_eq_splitOn]
  simp only [String.isEmpty_iff]

/-- **The segments of the steps to a part** lead to it. -/
theorem Contains.walk_eq {v part : Value} {steps : List Step} (h : v.Contains steps part) :
    v.WellFormed → v.Addressable → v.walk (steps.map Step.text) = some part := by
  induction h with
  | self v => exact fun _ _ => rfl
  | @entry entries key v part rest mem inner ih =>
    intro hformed hsize
    have hchild : (Value.object entries).child? key = some v := KeyMap.lookup_of_mem hformed.1 mem
    rw [List.map_cons, Step.text, Value.walk, hchild]
    exact ih (wellFormedEntries_iff.mp hformed.2 _ mem) (addressable_object_iff.mp hsize _ mem)
  | @item items i v part rest stands inner ih =>
    intro hformed hsize
    have hchild : (Value.array items).child? (numeralText 0 i) = some v := by
      rw [child?_eq_partIn? hsize, partIn?, if_pos (isNumeral_numeralText 0 i),
        numeralValue_numeralText, stands]
    have hmem := List.mem_of_getElem? stands
    rw [List.map_cons, Step.text, Value.walk, hchild]
    exact ih (wellFormedItems_iff.mp hformed v hmem) ((addressable_array_iff.mp hsize).2 v hmem)

/-- **Every part has a path, and every path is read in one way.**  In a value whose objects repeat
no key and whose arrays are no longer than sixty-four bits can count:

* what is reached by steps whose keys have no dot in them is what their path leads to, unless that
  is the empty text, the path of the value itself;
* any text at all leads to what is found by following it with natural numbers for positions, and to
  nothing where that finds nothing;
* so an array has at a numeral, however long it is, the item at the number that it writes. -/
theorem paths_address_parts (v : Value) (hformed : v.WellFormed) (hsize : v.Addressable) :
    (∀ steps part, v.Contains steps part → (∀ key, .key key ∈ steps → '.' ∉ key.toList) →
      pathText steps ≠ "" → v.resolve (pathText steps) = some part) ∧
    (∀ path, v.resolve path = v.partAt? path) ∧
    ∀ items, v = .array items → ∀ zeros i, v.resolve (numeralText zeros i) = items[i]? := by
  refine ⟨fun steps part hcontains hkeys hpath => ?_, resolve_eq_partAt? hsize, ?_⟩
  · have hne : steps.map Step.text ≠ [] := by
      intro hnil
      rw [pathText, hnil] at hpath
      exact hpath rfl
    have hdot : ∀ text ∈ steps.map Step.text, '.' ∉ text.toList := by
      intro text htext
      obtain ⟨step, hstep, rfl⟩ := List.mem_map.mp htext
      cases step with
      | key key => exact hkeys key hstep
      | position i => exact (isNumeral_numeralText 0 i).dot_not_mem
    rw [resolve, if_neg (by simpa using hpath), pathText, segments_join hne hdot]
    exact hcontains.walk_eq hformed hsize
  · rintro items rfl zeros i
    have hnumeral := isNumeral_numeralText zeros i
    rw [resolve_eq_partAt? hsize, partAt?, if_neg hnumeral.1,
      List.splitOn_eq_singleton hnumeral.dot_not_mem, List.map_singleton, String.ofList_toList,
      List.foldlM_cons, partIn?, if_pos hnumeral, numeralValue_numeralText]
    cases items[i]? <;> rfl

/-- A path through an empty key and a key that looks like a position, to a part of the first item;
and the second item, with zeros before its position, where a position of more than sixty-four bits
leads nowhere. -/
theorem paths_address_parts_keys :
    let inner : Value := .object [("7", .string "é")]
    let first : Value := .object [("a b", .object [("", .array [.null, inner])])]
    let v : Value := .array [first, .bool true]
    let steps : List Step := [.position 0, .key "a b", .key "", .position 1, .key "7"]
    v.WellFormed ∧ v.Addressable ∧ v.Contains steps (.string "é") ∧
      (∀ key, .key key ∈ steps → '.' ∉ key.toList) ∧ pathText steps = "0.a b..1.7" ∧
      v.resolve "0.a b..1.7" = some (.string "é") ∧
      v.resolve "0.1" = none ∧ v.resolve (numeralText 2 1) = some (.bool true) ∧
      v.resolve (numeralText 0 (2 ^ 64 + 1)) = none := by
  intro inner first v steps
  have hformed : v.WellFormed := by
    simp [v, first, inner, WellFormed, WellFormedItems, WellFormedEntries]
  have hnull : Value.null.Addressable := fun _ _ hcontains => by cases hcontains
  have hbool : (Value.bool true).Addressable := fun _ _ hcontains => by cases hcontains
  have hstring : (Value.string "é").Addressable := fun _ _ hcontains => by cases hcontains
  have hsize : v.Addressable := by
    simp [v, first, inner, addressable_array_iff, addressable_object_iff, hnull, hbool, hstring]
  have hcontains : v.Contains steps (.string "é") :=
    .item rfl (.entry List.mem_cons_self (.entry List.mem_cons_self
      (.item rfl (.entry List.mem_cons_self (.self _)))))
  have hkeys : ∀ key, .key key ∈ steps → '.' ∉ key.toList := by
    simp [steps]
  have hpath : pathText steps = "0.a b..1.7" := by decide
  obtain ⟨hparts, hpaths, hnumerals⟩ := paths_address_parts v hformed hsize
  refine ⟨hformed, hsize, hcontains, hkeys, hpath, ?_, ?_, ?_, ?_⟩
  · rw [← hpath]
    exact hparts steps _ hcontains hkeys (by rw [hpath]; decide)
  · rw [hpaths]
    rfl
  · exact hnumerals _ rfl 2 1
  · exact hnumerals _ rfl 0 (2 ^ 64 + 1)

end Value

end DecisionRules
