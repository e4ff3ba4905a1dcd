import DecisionRules.Proofs.Value.KeyOrder
import DecisionRules.Proofs.Value.Plain

/-!
# Proofs/Value/Canonical — the sorted document of a value is a canonical form

`Value.toJson` keeps of a value what equality looks at.  The order of keys is gone, since they are
sorted; of two zeros one is written; and every other double is written as a number that stands for it
alone (`Number.exists_ofFloat?`).  So equal values have the same document
(`Value.toJson_eq_of_beq`), and documents that are equal as plain documents come from equal values
(`Value.beq_of_beq_toJson`): equality of finite values, of their documents and of the texts of those
are the same thing (`Value.toJson_canonical`).

What a document denotes is equal to the value it was made from, up to the doubles that are not
finite: those are written as `null` (`Value.eraseNonFinite`).
-/

namespace DecisionRules

/-! ## Equality of plain documents -/

/-- Equality of numbers in plain documents: integers with integers, doubles with doubles. -/
def Number.beq : Number → Number → Bool
  | .integer m, .integer n => m == n
  | .double x, .double y => x == y
  | _, _ => false

namespace Json

mutual

/-- Structural equality of plain documents, whose keys are sorted. -/
def beq : Json → Json → Bool
  | .null, .null => true
  | .bool a, .bool b => a == b
  | .number m, .number n => m.beq n
  | .string s, .string t => s == t
  | .array xs, .array ys => beqItems xs ys
  | .object xs, .object ys => beqEntries xs ys
  | _, _ => false
  termination_by structural j => j

/-- Item-by-item equality of two lists. -/
def beqItems : List Json → List Json → Bool
  | [], [] => true
  | x :: xs, y :: ys => x.beq y && beqItems xs ys
  | _, _ => false
  termination_by structural items => items

/-- Entry-by-entry equality of two lists. -/
def beqEntries : List (String × Json) → List (String × Json) → Bool
  | [], [] => true
  | (k, x) :: xs, (l, y) :: ys => (k == l && x.beq y) && beqEntries xs ys
  | _, _ => false
  termination_by structural entries => entries

end

instance : BEq Json := ⟨beq⟩

/-- Entries that are equal one by one lead to equal documents. -/
theorem rel_lookup_of_beqEntries {key : String} : ∀ {xs ys : List (String × Json)},
    beqEntries xs ys = true →
      Option.Rel (fun i j => i.beq j = true) (xs.lookup key) (ys.lookup key)
  | [], ys, h => by
    cases ys with
    | nil => exact .none
    | cons => cases h
  | (k, x) :: xs, ys, h => by
    cases ys with
    | nil => cases h
    | cons entry ys =>
      obtain ⟨l, y⟩ := entry
      simp only [beqEntries, Bool.and_eq_true, beq_iff_eq] at h
      obtain ⟨⟨rfl, hvalue⟩, hrest⟩ := h
      rw [KeyMap.lookup_cons, KeyMap.lookup_cons]
      split
      · exact .some hvalue
      · exact rel_lookup_of_beqEntries hrest

end Json

/-- A number that a text can hold is the same as itself. -/
theorem Number.Legible.beq_self {n : Number} (h : n.Legible) : n.beq n = true := by
  cases n with
  | integer n => exact beq_self_eq_true n
  | double x => exact h.beq_toFloat

namespace Json

mutual

/-- **A legible document is equal to itself**: none of its doubles is not a number. -/
theorem beq_self : ∀ {j : Json}, j.Legible → j.beq j = true
  | .null, _ => rfl
  | .bool b, _ => beq_self_eq_true b
  | .number _, h => h.beq_self
  | .string s, _ => beq_self_eq_true s
  | .array _, h => beqItems_self h
  | .object _, h => beqEntries_self h
  termination_by structural j => j

theorem beqItems_self : ∀ {items : List Json}, LegibleItems items → beqItems items items = true
  | [], _ => rfl
  | _ :: _, h => by rw [beqItems, beq_self h.1, beqItems_self h.2]; rfl
  termination_by structural items => items

theorem beqEntries_self : ∀ {entries : List (String × Json)}, LegibleEntries entries →
    beqEntries entries entries = true
  | [], _ => rfl
  | (_, _) :: _, h => by
    rw [beqEntries, beq_self h.1, beqEntries_self h.2, beq_self_eq_true]
    rfl
  termination_by structural entries => entries

end

/-- **No two legible documents have the same text.** -/
theorem eq_of_write_eq {i j : Json} (hi : i.Legible) (hj : j.Legible) (h : i.write = j.write) :
    i = j := by
  -- One reader that tells them apart is enough, so it may be the one that rounds correctly.
  let : Rounding := .toNearest
  have hleft : read (.strict (max i.depth j.depth)) i.write = .ok i :=
    read_write hi (roundsCorrectly_toNearest i) (Nat.le_max_left ..)
  have hright : read (.strict (max i.depth j.depth)) j.write = .ok j :=
    read_write hj (roundsCorrectly_toNearest j) (Nat.le_max_right ..)
  rw [h, hright] at hleft
  exact (Except.ok.inj hleft).symm

end Json

/-! ## Numbers -/

/-- **Equal doubles are written as the same number**, zeros of either sign too. -/
theorem Number.ofFloat?_eq_of_beq {x y : Float} (h : (x == y) = true) :
    ofFloat? x = ofFloat? y := by
  have hzeros : ofFloat? 0 = ofFloat? (-0) := by
    have hpositive : Binary64.toInt? 0 = some 0 := by decide +kernel
    have hnegative : Binary64.toInt? (-0) = some 0 := by decide +kernel
    simp [ofFloat?, hpositive, hnegative]
  obtain ⟨-, -, rfl | ⟨rfl, rfl⟩ | ⟨rfl, rfl⟩⟩ := Float.beq_iff_ne_nan_and_eq.mp h
  · rfl
  · exact hzeros
  · exact hzeros.symm

/-- Numbers that are the same stand for equal doubles. -/
theorem Number.toFloat_beq_of_beq {m n : Number} (h : m.beq n = true) :
    (m.toFloat == n.toFloat) = true := by
  cases m with
  | integer m =>
    cases n with
    | integer n =>
      obtain rfl : m = n := by simpa [Number.beq] using h
      exact Float.beq_self_iff.mpr (Binary64.nearest_ne_nan _ _ _)
    | double => cases h
  | double x =>
    cases n with
    | integer => cases h
    | double y => exact h

namespace Value

theorem numberDocument_eq_of_beq {x y : Float} (h : (x == y) = true) :
    numberDocument x = numberDocument y := by
  rw [numberDocument, Number.ofFloat?_eq_of_beq h, numberDocument]

/-- A double that is not finite is written as `null`. -/
theorem numberDocument_of_not_isFinite {x : Float} (h : Binary64.isFinite x = false) :
    numberDocument x = .null := by
  have hint : Binary64.toInt? x = none := by simp [Binary64.toInt?, h]
  simp [numberDocument, Number.ofFloat?, hint, h]

theorem legible_numberDocument (x : Float) : (numberDocument x).Legible := by
  cases hx : Binary64.isFinite x with
  | true =>
    obtain ⟨n, hn, hlegible, -⟩ := numberDocument_eq hx
    rw [hn]
    exact hlegible
  | false =>
    rw [numberDocument_of_not_isFinite hx]
    exact trivial

/-! ## Sorted entries -/

theorem toJsonEntries_eq_map (entries : List (String × Value)) :
    toJsonEntries entries = entries.map fun entry => (entry.1, entry.2.toJson) := by
  induction entries with
  | nil => rfl
  | cons entry rest ih => exact congrArg ((entry.1, entry.2.toJson) :: ·) ih

/-- The entries of the document of an object. -/
def documentedEntries (entries : List (String × Value)) : List (String × Json) :=
  KeyMap.sortEntries (toJsonEntries entries)

theorem sorted_documentedEntries (entries : List (String × Value)) :
    KeyMap.Sorted (documentedEntries entries) := KeyMap.sorted_sortEntries _

/-- **A key leads to the document of what it led to.** -/
theorem lookup_documentedEntries {entries : List (String × Value)}
    (h : (entries.map Prod.fst).Nodup) (key : String) :
    (documentedEntries entries).lookup key = (entries.lookup key).map toJson := by
  rw [documentedEntries, toJsonEntries_eq_map, KeyMap.lookup_sortEntries_map toJson h]

/-- **Objects have the same document** if their keys lead to what has the same document. -/
theorem toJson_object_eq {xs ys : List (String × Value)} (hxs : (xs.map Prod.fst).Nodup)
    (hys : (ys.map Prod.fst).Nodup)
    (h : ∀ key, (xs.lookup key).map toJson = (ys.lookup key).map toJson) :
    (Value.object xs).toJson = (Value.object ys).toJson := by
  have hsame : documentedEntries xs = documentedEntries ys :=
    (sorted_documentedEntries xs).ext (sorted_documentedEntries ys) fun key => by
      rw [lookup_documentedEntries hxs, lookup_documentedEntries hys, h key]
  exact congrArg Json.object hsame

/-! ## Equal values have the same document -/

mutual

/-- **Equal values have the same document.** -/
theorem toJson_eq_of_beq : ∀ {v w : Value}, v.WellFormed → w.WellFormed → v.beq w = true →
    v.toJson = w.toJson
  | .null, w, _, _, h => by
    cases w with
    | null => rfl
    | _ => cases h
  | .bool a, w, _, _, h => by
    cases w with
    | bool b => exact congrArg Json.bool (eq_of_beq h)
    | _ => cases h
  | .number x, w, _, _, h => by
    cases w with
    | number y => exact numberDocument_eq_of_beq h
    | _ => cases h
  | .string s, w, _, _, h => by
    cases w with
    | string t => exact congrArg Json.string (eq_of_beq h)
    | _ => cases h
  | .array xs, w, hv, hw, h => by
    cases w with
    | array ys => exact congrArg Json.array (toJsonItems_eq_of_beqItems hv hw h)
    | _ => cases h
  | .object xs, w, hv, hw, h => by
    cases w with
    | object ys =>
      have hentries := toJson_eq_of_beq_entry hv.2
      refine toJson_object_eq hv.1 hw.1 fun key => ?_
      refine map_eq_map_of_rel ((beq_object_iff hv.1 hw.1).mp h key) fun x y hx hy hxy => ?_
      exact hentries _ (KeyMap.mem_of_lookup hx)
        (wellFormedEntries_iff.mp hw.2 _ (KeyMap.mem_of_lookup hy)) hxy
    | _ => cases h
  termination_by structural v => v

theorem toJsonItems_eq_of_beqItems : ∀ {xs ys : List Value}, WellFormedItems xs →
    WellFormedItems ys → beqItems xs ys = true → toJsonItems xs = toJsonItems ys
  | [], ys, _, _, h => by
    cases ys with
    | nil => rfl
    | cons => cases h
  | x :: xs, ys, hxs, hys, h => by
    cases ys with
    | nil => cases h
    | cons y ys =>
      rw [beqItems, Bool.and_eq_true] at h
      exact congrArg₂ List.cons (toJson_eq_of_beq hxs.1 hys.1 h.1)
        (toJsonItems_eq_of_beqItems hxs.2 hys.2 h.2)
  termination_by structural xs => xs

theorem toJson_eq_of_beq_entry : ∀ {entries : List (String × Value)}, WellFormedEntries entries →
    ∀ entry ∈ entries, ∀ {w : Value}, w.WellFormed → entry.2.beq w = true →
      entry.2.toJson = w.toJson
  | [], _ => fun _ hmem => absurd hmem List.not_mem_nil
  | (_, _) :: _, h => List.forall_mem_cons.mpr
      ⟨fun hw hbeq => toJson_eq_of_beq h.1 hw hbeq, toJson_eq_of_beq_entry h.2⟩
  termination_by structural entries => entries

end

/-! ## Equal documents come from equal values -/

/-- Only a number is equal to what a finite double is written as. -/
theorem exists_number_of_beq {j : Json} {x : Float} (hx : Binary64.isFinite x = true)
    (h : j.beq (numberDocument x) = true) : ∃ m, j = .number m := by
  obtain ⟨n, hn, -⟩ := numberDocument_eq hx
  rw [hn] at h
  cases j with
  | number m => exact ⟨m, rfl⟩
  | _ => cases h

/-- **Doubles that are written as the same number are equal.** -/
theorem beq_of_beq_numberDocument {x y : Float} (hx : Binary64.isFinite x = true)
    (hy : Binary64.isFinite y = true) (h : (numberDocument x).beq (numberDocument y) = true) :
    (x == y) = true := by
  obtain ⟨m, hm, -, hback, -⟩ := numberDocument_eq hx
  obtain ⟨n, hn, -, hback', -⟩ := numberDocument_eq hy
  rw [hm, hn] at h
  have hsame : (m.toFloat == n.toFloat) = true := Number.toFloat_beq_of_beq h
  exact BEq.trans (BEq.trans (BEq.symm hback) hsame) hback'

mutual

/-- **Finite values with equal documents are equal.** -/
theorem beq_of_beq_toJson : ∀ {v w : Value}, v.WellFormed → w.WellFormed → v.IsFinite →
    w.IsFinite → v.toJson.beq w.toJson = true → v.beq w = true
  | .null, w, _, _, _, hfinite, h => by
    cases w with
    | null => rfl
    | number y =>
      obtain ⟨m, hm⟩ := exists_number_of_beq hfinite h
      cases hm
    | _ => cases h
  | .bool a, w, _, _, _, hfinite, h => by
    cases w with
    | bool b => exact h
    | number y =>
      obtain ⟨m, hm⟩ := exists_number_of_beq hfinite h
      cases hm
    | _ => cases h
  | .number x, w, _, _, hv, hw, h => by
    cases w with
    | number y => exact beq_of_beq_numberDocument hv hw h
    | _ =>
      obtain ⟨n, hn, -⟩ := numberDocument_eq hv
      rw [toJson, toJson, hn] at h
      cases h
  | .string s, w, _, _, _, hfinite, h => by
    cases w with
    | string t => exact h
    | number y =>
      obtain ⟨m, hm⟩ := exists_number_of_beq hfinite h
      cases hm
    | _ => cases h
  | .array xs, w, hv, hw, hvfinite, hwfinite, h => by
    cases w with
    | array ys => exact beqItems_of_beqItems_toJson hv hw hvfinite hwfinite h
    | number y =>
      obtain ⟨m, hm⟩ := exists_number_of_beq hwfinite h
      cases hm
    | _ => cases h
  | .object xs, w, hv, hw, hvfinite, hwfinite, h => by
    cases w with
    | object ys =>
      have hentries := beq_of_beq_toJson_entry hv.2 hvfinite
      refine (beq_object_iff hv.1 hw.1).mpr fun key => ?_
      have hrel : Option.Rel (fun i j => i.beq j = true) ((documentedEntries xs).lookup key)
          ((documentedEntries ys).lookup key) := Json.rel_lookup_of_beqEntries h
      rw [lookup_documentedEntries hv.1, lookup_documentedEntries hw.1] at hrel
      refine rel_of_rel_map hrel fun x y hx hy hxy => ?_
      exact hentries _ (KeyMap.mem_of_lookup hx)
        (wellFormedEntries_iff.mp hw.2 _ (KeyMap.mem_of_lookup hy))
        (isFiniteEntries_iff.mp hwfinite _ (KeyMap.mem_of_lookup hy)) hxy
    | number y =>
      obtain ⟨m, hm⟩ := exists_number_of_beq hwfinite h
      cases hm
    | _ => cases h
  termination_by structural v => v

theorem beqItems_of_beqItems_toJson : ∀ {xs ys : List Value}, WellFormedItems xs →
    WellFormedItems ys → IsFiniteItems xs → IsFiniteItems ys →
    Json.beqItems (toJsonItems xs) (toJsonItems ys) = true → beqItems xs ys = true
  | [], ys, _, _, _, _, h => by
    cases ys with
    | nil => rfl
    | cons => cases h
  | x :: xs, ys, hxs, hys, hxfinite, hyfinite, h => by
    cases ys with
    | nil => cases h
    | cons y ys =>
      rw [toJsonItems, toJsonItems, Json.beqItems, Bool.and_eq_true] at h
      rw [beqItems, beq_of_beq_toJson hxs.1 hys.1 hxfinite.1 hyfinite.1 h.1,
        beqItems_of_beqItems_toJson hxs.2 hys.2 hxfinite.2 hyfinite.2 h.2]
      rfl
  termination_by structural xs => xs

theorem beq_of_beq_toJson_entry : ∀ {entries : List (String × Value)}, WellFormedEntries entries →
    IsFiniteEntries entries → ∀ entry ∈ entries, ∀ {w : Value}, w.WellFormed → w.IsFinite →
      entry.2.toJson.beq w.toJson = true → entry.2.beq w = true
  | [], _, _ => fun _ hmem => absurd hmem List.not_mem_nil
  | (_, _) :: _, h, hfinite => List.forall_mem_cons.mpr
      ⟨fun hw hwfinite hbeq => beq_of_beq_toJson h.1 hw hfinite.1 hwfinite hbeq,
        beq_of_beq_toJson_entry h.2 hfinite.2⟩
  termination_by structural entries => entries

end

/-! ## What the document denotes -/

mutual

/-- The value with `null` for every double that is not finite. -/
def eraseNonFinite : Value → Value
  | .number x => if Binary64.isFinite x then .number x else .null
  | .array items => .array (eraseNonFiniteOfItems items)
  | .object entries => .object (eraseNonFiniteOfEntries entries)
  | v => v
  termination_by structural v => v

/-- `eraseNonFinite` on every item. -/
def eraseNonFiniteOfItems : List Value → List Value
  | [] => []
  | v :: rest => v.eraseNonFinite :: eraseNonFiniteOfItems rest
  termination_by structural items => items

/-- `eraseNonFinite` on the value of every entry. -/
def eraseNonFiniteOfEntries : List (String × Value) → List (String × Value)
  | [] => []
  | (k, v) :: rest => (k, v.eraseNonFinite) :: eraseNonFiniteOfEntries rest
  termination_by structural entries => entries

end

theorem eraseNonFiniteOfEntries_eq_map (entries : List (String × Value)) :
    eraseNonFiniteOfEntries entries =
      entries.map fun entry => (entry.1, entry.2.eraseNonFinite) := by
  induction entries with
  | nil => rfl
  | cons entry rest ih => exact congrArg ((entry.1, entry.2.eraseNonFinite) :: ·) ih

mutual

/-- In a finite value there is nothing to erase. -/
theorem eraseNonFinite_of_isFinite : ∀ {v : Value}, v.IsFinite → v.eraseNonFinite = v
  | .null, _ => rfl
  | .bool _, _ => rfl
  | .number _, h => if_pos h
  | .string _, _ => rfl
  | .array _, h => congrArg Value.array (eraseNonFiniteOfItems_of_isFiniteItems h)
  | .object _, h => congrArg Value.object (eraseNonFiniteOfEntries_of_isFiniteEntries h)
  termination_by structural v => v

theorem eraseNonFiniteOfItems_of_isFiniteItems : ∀ {items : List Value}, IsFiniteItems items →
    eraseNonFiniteOfItems items = items
  | [], _ => rfl
  | _ :: _, h => congrArg₂ List.cons (eraseNonFinite_of_isFinite h.1)
      (eraseNonFiniteOfItems_of_isFiniteItems h.2)
  termination_by structural items => items

theorem eraseNonFiniteOfEntries_of_isFiniteEntries : ∀ {entries : List (String × Value)},
    IsFiniteEntries entries → eraseNonFiniteOfEntries entries = entries
  | [], _ => rfl
  | (k, _) :: _, h => congrArg₂ (fun v rest => (k, v) :: rest) (eraseNonFinite_of_isFinite h.1)
      (eraseNonFiniteOfEntries_of_isFiniteEntries h.2)
  termination_by structural entries => entries

end

/-- What a key leads to in the value of the document of an object. -/
theorem lookup_ofJson_documentedEntries {entries : List (String × Value)}
    (h : (entries.map Prod.fst).Nodup) (key : String) :
    (ofEntries (ofJsonEntries (documentedEntries entries))).lookup key =
      (entries.lookup key).map fun v => ofJson v.toJson := by
  rw [lookup_ofJsonEntries_merged, KeyMap.lookup_reverse (sorted_documentedEntries entries).nodup,
    lookup_documentedEntries h, Option.map_map]
  rfl

mutual

/-- **The document of a value denotes that value**, with `null` for what it cannot write. -/
theorem beq_ofJson_toJson : ∀ {v : Value}, v.WellFormed →
    (ofJson v.toJson).beq v.eraseNonFinite = true
  | .null, _ => rfl
  | .bool b, _ => beq_self_eq_true b
  | .number x, _ => by
    rw [toJson, eraseNonFinite]
    split
    · rename_i hx
      obtain ⟨n, hn, -, hback, -⟩ := numberDocument_eq hx
      rw [hn]
      exact hback
    · rename_i hx
      rw [numberDocument_of_not_isFinite (Bool.eq_false_iff.mpr hx)]
      rfl
  | .string s, _ => beq_self_eq_true s
  | .array _, h => beqItems_ofJson_toJson h
  | .object entries, h => by
    have hentries := beq_ofJson_toJson_entry h.2
    have hkeys : ((eraseNonFiniteOfEntries entries).map Prod.fst).Nodup := by
      rw [eraseNonFiniteOfEntries_eq_map, List.map_map]
      exact h.1
    refine (beq_object_iff (nodup_ofEntries _) hkeys).mpr fun key => ?_
    have hlookup := lookup_ofJson_documentedEntries h.1 key
    rw [documentedEntries] at hlookup
    rw [hlookup, eraseNonFiniteOfEntries_eq_map, KeyMap.lookup_map]
    rcases hv : entries.lookup key with _ | v
    · exact .none
    · exact .some (hentries _ (KeyMap.mem_of_lookup hv))
  termination_by structural v => v

theorem beqItems_ofJson_toJson : ∀ {items : List Value}, WellFormedItems items →
    beqItems (ofJsonItems (toJsonItems items)) (eraseNonFiniteOfItems items) = true
  | [], _ => rfl
  | _ :: _, h => by
    rw [toJsonItems, ofJsonItems, eraseNonFiniteOfItems, beqItems, beq_ofJson_toJson h.1,
      beqItems_ofJson_toJson h.2]
    rfl
  termination_by structural items => items

theorem beq_ofJson_toJson_entry : ∀ {entries : List (String × Value)}, WellFormedEntries entries →
    ∀ entry ∈ entries, (ofJson entry.2.toJson).beq entry.2.eraseNonFinite = true
  | [], _ => fun _ hmem => absurd hmem List.not_mem_nil
  | (_, _) :: _, h => List.forall_mem_cons.mpr
      ⟨beq_ofJson_toJson h.1, beq_ofJson_toJson_entry h.2⟩
  termination_by structural entries => entries

end

/-! ## The text -/

mutual

/-- **The document of every value is legible.** -/
theorem legible_toJson (v : Value) : v.toJson.Legible := by
  cases v with
  | number x => exact legible_numberDocument x
  | array items => exact legible_toJsonItems items
  | object entries =>
    have hentries := legible_toJsonEntries entries
    refine Json.legibleEntries_iff.mpr fun entry hentry => ?_
    have hlookup := KeyMap.lookup_of_mem (sorted_documentedEntries entries).nodup hentry
    rw [documentedEntries, KeyMap.lookup_sortEntries] at hlookup
    exact hentries entry (List.mem_reverse.mp (KeyMap.mem_of_lookup hlookup))
  | _ => exact trivial
  termination_by structural v

theorem legible_toJsonItems (items : List Value) : Json.LegibleItems (toJsonItems items) := by
  cases items with
  | nil => exact trivial
  | cons v rest => exact ⟨legible_toJson v, legible_toJsonItems rest⟩
  termination_by structural items

theorem legible_toJsonEntries (entries : List (String × Value)) :
    ∀ entry ∈ toJsonEntries entries, entry.2.Legible := by
  cases entries with
  | nil => exact fun _ hmem => absurd hmem List.not_mem_nil
  | cons entry rest =>
    exact List.forall_mem_cons.mpr ⟨legible_toJson entry.2, legible_toJsonEntries rest⟩
  termination_by structural entries

end

/-! ## The canonical form -/

/-- **The sorted document is a canonical form.**  The value it denotes is equal to the one it was
made from, with `null` for every number that is not finite, and so to that one itself if there is
none.  Of two values whose numbers are all finite, the values are equal if and only if their
documents are equal as plain documents, if and only if their documents are the same, and if and only
if the texts of those are. -/
theorem toJson_canonical :
    (∀ a : Value, a.WellFormed → (ofJson a.toJson == a.eraseNonFinite) = true) ∧
    (∀ a : Value, a.WellFormed → a.IsFinite → (ofJson a.toJson == a) = true) ∧
    ∀ a b : Value, a.WellFormed → b.WellFormed → a.IsFinite → b.IsFinite →
      ((a == b) = true ↔ (a.toJson == b.toJson) = true) ∧
      ((a == b) = true ↔ a.toJson = b.toJson) ∧
      ((a == b) = true ↔ a.toJson.write = b.toJson.write) := by
  refine ⟨fun a ha => beq_ofJson_toJson ha, fun a ha hfinite => ?_,
    fun a b ha hb hafinite hbfinite => ?_⟩
  · have hback := beq_ofJson_toJson ha
    rw [eraseNonFinite_of_isFinite hfinite] at hback
    exact hback
  · have hdocument : (a == b) = true → a.toJson = b.toJson := toJson_eq_of_beq ha hb
    have hback : (a.toJson == b.toJson) = true → (a == b) = true :=
      beq_of_beq_toJson ha hb hafinite hbfinite
    have hplain (h : a.toJson = b.toJson) : (a.toJson == b.toJson) = true := by
      rw [h]
      exact Json.beq_self (legible_toJson b)
    have htext (h : a.toJson.write = b.toJson.write) : a.toJson = b.toJson :=
      Json.eq_of_write_eq (legible_toJson a) (legible_toJson b) h
    exact ⟨⟨fun h => hplain (hdocument h), hback⟩, ⟨hdocument, fun h => hback (hplain h)⟩,
      ⟨fun h => congrArg Json.write (hdocument h), fun h => hback (hplain (htext h))⟩⟩

/-- Keys in another order and a zero of the other sign, beside an integral double at the limit and a
tenth; and two doubles that are not finite. -/
theorem toJson_canonical_zeros :
    let a : Value := .object [("b", .array [.number 0, .number (.ofBits 0x4340000000000000)]),
      ("a", .number (.ofBits 0x3FB999999999999A))]
    let b : Value := .object [("a", .number (.ofBits 0x3FB999999999999A)),
      ("b", .array [.number (-0), .number (.ofBits 0x4340000000000000)])]
    let c : Value := .array [.number (.ofBits 0x7FF0000000000000), .number Float.nan, .number 0]
    a.WellFormed ∧ b.WellFormed ∧ c.WellFormed ∧ a.IsFinite ∧ b.IsFinite ∧
      (ofJson a.toJson == a) = true ∧ (ofJson c.toJson == .array [.null, .null, .number 0]) = true ∧
      (a == b) = true ∧ (a.toJson == b.toJson) = true ∧ a.toJson = b.toJson ∧
      a.toJson.write = b.toJson.write := by
  intro a b c
  obtain ⟨herased, hback, hsame⟩ := toJson_canonical
  have ha : a.WellFormed := by simp [a, WellFormed, WellFormedItems, WellFormedEntries]
  have hb : b.WellFormed := by simp [b, WellFormed, WellFormedItems, WellFormedEntries]
  have hc : c.WellFormed := by simp [c, WellFormed, WellFormedItems]
  have hafinite : a.IsFinite := by
    simp only [a, IsFinite, IsFiniteItems, IsFiniteEntries]
    decide +kernel
  have hbfinite : b.IsFinite := by
    simp only [b, IsFinite, IsFiniteItems, IsFiniteEntries]
    decide +kernel
  have herase : c.eraseNonFinite = .array [.null, .null, .number 0] := by
    have hinfinite : Binary64.isFinite (.ofBits 0x7FF0000000000000) = false := by decide +kernel
    have hnan : Binary64.isFinite Float.nan = false := by decide +kernel
    have hzero : Binary64.isFinite 0 = true := by decide +kernel
    simp [c, eraseNonFinite, eraseNonFiniteOfItems, hinfinite, hnan, hzero]
  have hequal : (a == b) = true := by decide +kernel
  obtain ⟨hplain, hdocument, htext⟩ := hsame a b ha hb hafinite hbfinite
  rw [← herase]
  exact ⟨ha, hb, hc, hafinite, hbfinite, hback a ha hafinite, herased c hc, hequal,
    hplain.mp hequal, hdocument.mp hequal, htext.mp hequal⟩

end Value

end DecisionRules
