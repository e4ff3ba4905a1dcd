import DecisionRules.Proofs.Json.Legibility
import DecisionRules.Proofs.Value.RoundTrip

/-!
# Proofs/Value/Plain — two ways to read a text agree

A text is read as a value at once, or first as a plain document, which keeps the keys of its objects
sorted, and then as the value of that.  The two ways merge repeated keys in different orders and at
different times, but a key leads to its last entry either way, and equality looks at nothing else.
Its numbers are equal to themselves, since none that is read is not a number.  So neither way reads
more texts than the other, and the values are equal (`Value.readValue_agrees`).
-/

namespace DecisionRules

/-! ## The plain document -/

/-- A number that a text can hold is equal to itself. -/
theorem Number.Legible.beq_toFloat {n : Number} (h : n.Legible) :
    (n.toFloat == n.toFloat) = true := by
  rw [Float.beq_self_iff]
  cases n with
  | integer n => exact Binary64.nearest_ne_nan _ _ _
  | double x => exact Binary64.ne_nan_of_isFinite h

theorem Json.normalizeEntries_eq_map (entries : List (String × Json)) :
    normalizeEntries entries = entries.map fun entry => (entry.1, entry.2.normalize) := by
  induction entries with
  | nil => rfl
  | cons entry rest ih => exact congrArg ((entry.1, entry.2.normalize) :: ·) ih

namespace Value

theorem ofJsonEntries_eq_map (entries : List (String × Json)) :
    ofJsonEntries entries = entries.map fun entry => (entry.1, ofJson entry.2) := by
  induction entries with
  | nil => rfl
  | cons entry rest ih => exact congrArg ((entry.1, ofJson entry.2) :: ·) ih

/-- The value under a key is that of the last entry with it. -/
theorem lookup_ofJsonEntries_merged (entries : List (String × Json)) (key : String) :
    (ofEntries (ofJsonEntries entries)).lookup key = (entries.reverse.lookup key).map ofJson := by
  rw [lookup_ofEntries, ofJsonEntries_eq_map, ← List.map_reverse, KeyMap.lookup_map]

/-- Sorted first, the same entry is found. -/
theorem lookup_ofJsonEntries_sorted (entries : List (String × Json)) (key : String) :
    (ofEntries (ofJsonEntries (KeyMap.sortEntries (Json.normalizeEntries entries)))).lookup key =
      (entries.reverse.lookup key).map fun j => ofJson j.normalize := by
  have hnodup : ((KeyMap.sortEntries (Json.normalizeEntries entries)).map Prod.fst).Nodup :=
    (KeyMap.sorted_sortEntries _).nodup
  have hkeys : ((ofJsonEntries (KeyMap.sortEntries (Json.normalizeEntries entries))).map
      Prod.fst).Nodup := by
    rw [ofJsonEntries_eq_map, List.map_map]
    exact hnodup
  rw [ofEntries_of_nodup hkeys, ofJsonEntries_eq_map, KeyMap.lookup_map, KeyMap.lookup_sortEntries,
    Json.normalizeEntries_eq_map, ← List.map_reverse, KeyMap.lookup_map, Option.map_map]
  rfl

mutual

/-- **Sorting the keys of a document leaves an equal value.** -/
theorem beq_ofJson_normalize : ∀ {j : Json}, j.Legible → (ofJson j.normalize).beq (ofJson j) = true
  | .null, _ => rfl
  | .bool b, _ => beq_self_eq_true b
  | .number _, h => h.beq_toFloat
  | .string s, _ => beq_self_eq_true s
  | .array _, h => beqItems_ofJson_normalize h
  | .object entries, h => by
    have hentries := beqEntries_ofJson_normalize h
    refine (beq_object_iff (nodup_ofEntries _) (nodup_ofEntries _)).mpr fun key => ?_
    rw [lookup_ofJsonEntries_sorted, lookup_ofJsonEntries_merged]
    rcases hj : entries.reverse.lookup key with _ | j
    · exact .none
    · exact .some (hentries _ (List.mem_reverse.mp (KeyMap.mem_of_lookup hj)))
  termination_by structural j => j

theorem beqItems_ofJson_normalize : ∀ {items : List Json}, Json.LegibleItems items →
    beqItems (ofJsonItems (Json.normalizeItems items)) (ofJsonItems items) = true
  | [], _ => rfl
  | _ :: _, h => by
    rw [Json.normalizeItems, ofJsonItems, ofJsonItems, beqItems, beq_ofJson_normalize h.1,
      beqItems_ofJson_normalize h.2]
    rfl
  termination_by structural items => items

theorem beqEntries_ofJson_normalize : ∀ {entries : List (String × Json)},
    Json.LegibleEntries entries →
    ∀ entry ∈ entries, (ofJson entry.2.normalize).beq (ofJson entry.2) = true
  | [], _ => fun _ hmem => absurd hmem List.not_mem_nil
  | (_, _) :: _, h => List.forall_mem_cons.mpr
      ⟨beq_ofJson_normalize h.1, beqEntries_ofJson_normalize h.2⟩
  termination_by structural entries => entries

end

/-! ## The two ways -/

/-- Where a value is read nothing is skipped. -/
theorem policy_value : Shape.value.policy = .strict Json.nestingLimit := by
  have hskips : ∀ holes : List Json.Hole, Shape.value.skips holes = false := by
    rintro (_ | ⟨before | ⟨before, key⟩, holes⟩) <;> rfl
  simp [Shape.policy, Json.Reader.Policy.strict, hskips]

/-- **A value is that of the document which the text writes**, and the text writes none if there is
no value. -/
theorem readValue_eq [Rounding] (text : String) :
    (∃ e stop, readValue text = .error e ∧ Json.parse text = .error stop) ∨
      ∃ j, readValue text = .ok (ofJson j) ∧ Json.parse text = .ok j := by
  rw [readValue, readText, Shape.read, policy_value, Json.parse]
  rcases Json.read (.strict Json.nestingLimit) text with stop | j
  · exact .inl ⟨_, stop, rfl, rfl⟩
  · refine .inr ⟨j, ?_, rfl⟩
    simp only [check_value]
    rfl

/-- **The two ways to read a text agree**, however decimals are rounded: either there is neither a
value nor a plain document, or there are both, and the value of the document whose keys are sorted
at every level — the last of equal keys staying — is equal to the one that was read at once. -/
theorem readValue_agrees [Rounding] (text : String) :
    (∃ e stop, readValue text = .error e ∧ (Json.parse text).map Json.normalize = .error stop) ∨
      ∃ v j, readValue text = .ok v ∧ (Json.parse text).map Json.normalize = .ok j ∧
        (ofJson j == v) = true := by
  rcases readValue_eq text with ⟨e, stop, hvalue, hparse⟩ | ⟨j, hvalue, hparse⟩
  · exact .inl ⟨e, stop, hvalue, by rw [hparse]; rfl⟩
  · exact .inr ⟨ofJson j, j.normalize, hvalue, by rw [hparse]; rfl,
      beq_ofJson_normalize (Json.legible_of_read hparse)⟩

/-- Keys repeat at two depths, and an integer is no double. -/
example :
    letI : Rounding := .toNearest
    let text :=
      "\x7b\"b\":0,\"a\":\x7b\"x\":1,\"x\":9007199254740993\x7d,\"b\":\x7b\"z\":0,\"y\":1\x7d\x7d"
    (readValue text).toOption.map Value.text =
        some "\x7b\"b\":\x7b\"z\":0,\"y\":1\x7d,\"a\":\x7b\"x\":9007199254740992\x7d\x7d" ∧
      (Json.parse text).toOption.map (fun j => (ofJson j.normalize).text) =
        some "\x7b\"a\":\x7b\"x\":9007199254740992\x7d,\"b\":\x7b\"y\":1,\"z\":0\x7d\x7d" := by
  decide +kernel

end Value

end DecisionRules
