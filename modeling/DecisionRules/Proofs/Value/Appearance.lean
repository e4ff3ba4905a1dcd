import DecisionRules.Proofs.Value.Canonical
import DecisionRules.Proofs.Value.Equivalence

/-!
# Proofs/Value/Appearance — which values look the same

A value is printed with the keys of its objects in their own order, and a double that is not finite
is printed as `null`.  So the text of a value tells the order of keys, which equality does not look
at; and it does not tell which double stood where `null` is printed.

That is all it hides.  Two values have the same text exactly if they are equal with `null` in place
of such doubles, and have the same keys in the same order (`Value.text_eq_iff`).  What is left after
the replacement is finite, so its document can be read back, and a document that can be read back
stands for one value, up to equality.

Statements about all parts of a value go by `Value.partInduction`.
-/

namespace DecisionRules

namespace Value

/-! ## Part by part -/

/-- **Induction over the parts of a value.** -/
@[elab_as_elim] theorem partInduction {motive : Value → Prop} (null : motive .null)
    (bool : ∀ b, motive (.bool b)) (number : ∀ x, motive (.number x))
    (string : ∀ s, motive (.string s))
    (array : ∀ items, (∀ v ∈ items, motive v) → motive (.array items))
    (object : ∀ entries, (∀ entry ∈ entries, motive entry.2) → motive (.object entries)) :
    ∀ v, motive v
  | .null => null
  | .bool b => bool b
  | .number x => number x
  | .string s => string s
  | .array items => array items fun v _ => partInduction null bool number string array object v
  | .object entries =>
    object entries fun entry _ => partInduction null bool number string array object entry.2
  termination_by v => sizeOf v
  decreasing_by
  · have := List.sizeOf_lt_of_mem ‹_›
    simp only [Value.array.sizeOf_spec]
    omega
  · have := List.sizeOf_lt_of_mem ‹_›
    obtain ⟨k, v⟩ := entry
    simp only [Value.object.sizeOf_spec, Prod.mk.sizeOf_spec] at *
    omega

/-- Going through a list item by item is mapping it. -/
theorem eq_map_of_cons {α β : Type} {f : α → β} {g : List α → List β} (hnil : g [] = [])
    (hcons : ∀ a rest, g (a :: rest) = f a :: g rest) (items : List α) : g items = items.map f := by
  induction items with
  | nil => exact hnil
  | cons a rest ih => rw [hcons, ih, List.map_cons]

/-- Two lists are mapped to the same one if they are item by item. -/
theorem map_eq_map_iff {α β γ : Type} {f : α → γ} {g : β → γ} {xs : List α} {ys : List β} :
    xs.map f = ys.map g ↔
      xs.length = ys.length ∧ ∀ x y, (x, y) ∈ xs.zip ys → f x = g y := by
  rw [← List.forall₂_eq_eq_eq, List.forall₂_map_left_iff, List.forall₂_map_right_iff,
    List.forall₂_iff_zip]

/-- Equal arrays are equal item by item. -/
theorem beq_of_mem_zip {xs ys : List Value} (h : beqItems xs ys = true) {x y : Value}
    (hmem : (x, y) ∈ xs.zip ys) : x.beq y = true := by
  induction xs generalizing ys with
  | nil => exact absurd hmem List.not_mem_nil
  | cons v rest ih =>
    obtain _ | ⟨w, rest'⟩ := ys
    · exact absurd hmem List.not_mem_nil
    rw [beqItems, Bool.and_eq_true] at h
    obtain heq | hrest := List.mem_cons.mp hmem
    · obtain ⟨rfl, rfl⟩ := Prod.mk.inj heq
      exact h.1
    · exact ih h.2 hrest

/-- So are equal objects entry by entry, wherever the keys are the same. -/
theorem beq_of_mem_zip_entries {xs ys : List (String × Value)} (hxs : (xs.map Prod.fst).Nodup)
    (hys : (ys.map Prod.fst).Nodup) (h : (Value.object xs).beq (.object ys) = true)
    {x y : String × Value} (hmem : (x, y) ∈ xs.zip ys) (hkey : x.1 = y.1) :
    x.2.beq y.2 = true := by
  obtain ⟨hx, hy⟩ := List.of_mem_zip hmem
  have hrel := (beq_object_iff hxs hys).mp h x.1
  rw [KeyMap.lookup_of_mem hxs hx, hkey, KeyMap.lookup_of_mem hys hy] at hrel
  obtain ⟨z, hz, hbeq⟩ := exists_of_rel_some hrel
  obtain rfl : y.2 = z := Option.some.inj hz
  exact hbeq

section Parts

variable (items : List Value) (entries : List (String × Value))

theorem document_array : (Value.array items).document = .array (items.map document) :=
  congrArg Json.array (eq_map_of_cons rfl (fun _ _ => rfl) items)

theorem document_object : (Value.object entries).document =
    .object (entries.map fun entry => (entry.1, entry.2.document)) :=
  congrArg Json.object (eq_map_of_cons rfl (fun _ _ => rfl) entries)

theorem outline_array : (Value.array items).outline = .array (items.map outline) :=
  congrArg Value.array (eq_map_of_cons rfl (fun _ _ => rfl) items)

theorem outline_object : (Value.object entries).outline =
    .object (entries.map fun entry => (entry.1, entry.2.outline)) :=
  congrArg Value.object (eq_map_of_cons rfl (fun _ _ => rfl) entries)

theorem eraseNonFinite_array :
    (Value.array items).eraseNonFinite = .array (items.map eraseNonFinite) :=
  congrArg Value.array (eq_map_of_cons rfl (fun _ _ => rfl) items)

theorem eraseNonFinite_object : (Value.object entries).eraseNonFinite =
    .object (entries.map fun entry => (entry.1, entry.2.eraseNonFinite)) :=
  congrArg Value.object (eraseNonFiniteOfEntries_eq_map entries)

theorem isFiniteItems_iff : IsFiniteItems items ↔ ∀ v ∈ items, v.IsFinite := by
  induction items with
  | nil => simp [IsFiniteItems]
  | cons v rest ih => rw [IsFiniteItems, ih, List.forall_mem_cons]

end Parts

/-! ## What is printed as `null` -/

/-- **A value is printed like what is left of it.** -/
theorem document_eraseNonFinite (v : Value) : v.eraseNonFinite.document = v.document := by
  induction v using partInduction with
  | number x =>
    rw [eraseNonFinite]
    split
    · rfl
    · rename_i hx
      exact (numberDocument_of_not_isFinite (Bool.eq_false_iff.mpr hx)).symm
  | array items ih =>
    rw [eraseNonFinite_array, document_array, document_array, List.map_map]
    exact congrArg Json.array (List.map_congr_left ih)
  | object entries ih =>
    rw [eraseNonFinite_object, document_object, document_object, List.map_map]
    exact congrArg Json.object (List.map_congr_left fun entry hentry =>
      congrArg (Prod.mk entry.1) (ih entry hentry))
  | _ => rfl

theorem outline_eraseNonFinite (v : Value) : v.eraseNonFinite.outline = v.outline := by
  induction v using partInduction with
  | number x =>
    rw [eraseNonFinite]
    split <;> rfl
  | array items ih =>
    rw [eraseNonFinite_array, outline_array, outline_array, List.map_map]
    exact congrArg Value.array (List.map_congr_left ih)
  | object entries ih =>
    rw [eraseNonFinite_object, outline_object, outline_object, List.map_map]
    exact congrArg Value.object (List.map_congr_left fun entry hentry =>
      congrArg (Prod.mk entry.1) (ih entry hentry))
  | _ => rfl

theorem isFinite_eraseNonFinite (v : Value) : v.eraseNonFinite.IsFinite := by
  induction v using partInduction with
  | number x =>
    rw [eraseNonFinite]
    split
    · assumption
    · exact trivial
  | array items ih =>
    rw [eraseNonFinite_array]
    exact (isFiniteItems_iff _).mpr (List.forall_mem_map.mpr ih)
  | object entries ih =>
    rw [eraseNonFinite_object]
    exact isFiniteEntries_iff.mpr (List.forall_mem_map.mpr ih)
  | _ => exact trivial

theorem WellFormed.eraseNonFinite {v : Value} (h : v.WellFormed) :
    v.eraseNonFinite.WellFormed := by
  induction v using partInduction with
  | number x =>
    rw [Value.eraseNonFinite]
    split <;> exact trivial
  | array items ih =>
    rw [eraseNonFinite_array]
    exact wellFormedItems_iff.mpr
      (List.forall_mem_map.mpr fun v hv => ih v hv (wellFormedItems_iff.mp h v hv))
  | object entries ih =>
    rw [eraseNonFinite_object]
    refine ⟨?keys, wellFormedEntries_iff.mpr (List.forall_mem_map.mpr fun entry hentry =>
      ih entry hentry (wellFormedEntries_iff.mp h.2 entry hentry))⟩
    rw [List.map_map]
    exact h.1
  | _ => exact trivial

/-- **What comes back from a document repeats no key** either. -/
theorem wellFormed_reread {v : Value} (h : v.WellFormed) : v.reread.WellFormed := by
  induction v using partInduction with
  | number x =>
    rw [reread, document, numberDocument]
    rcases Number.ofFloat? x with _ | n <;> exact trivial
  | array items ih =>
    have hitems : rereadItems items = items.map reread := eq_map_of_cons rfl (fun _ _ => rfl) items
    change WellFormedItems (rereadItems items)
    rw [hitems]
    exact wellFormedItems_iff.mpr
      (List.forall_mem_map.mpr fun v hv => ih v hv (wellFormedItems_iff.mp h v hv))
  | object entries ih =>
    have hentries : rereadEntries entries = entries.map fun entry => (entry.1, entry.2.reread) :=
      eq_map_of_cons rfl (fun _ _ => rfl) entries
    rw [reread_object h.1]
    refine ⟨keys_rereadEntries entries ▸ h.1, ?_⟩
    rw [hentries]
    exact wellFormedEntries_iff.mpr (List.forall_mem_map.mpr fun entry hentry =>
      ih entry hentry (wellFormedEntries_iff.mp h.2 entry hentry))
  | _ => exact trivial

/-! ## Finite values -/

section Finite

variable {v w : Value}

/-- **A document stands for one finite value**, up to equality, and for one order of keys. -/
theorem beq_of_document_eq (hv : v.WellFormed) (hw : w.WellFormed) (hvfinite : v.IsFinite)
    (hwfinite : w.IsFinite) (h : v.document = w.document) :
    (v == w) = true ∧ v.outline = w.outline := by
  have hsame : v.reread = w.reread := congrArg ofJson h
  have hback : (v.reread == v) = true := beq_reread hv hvfinite
  have hback' : (v.reread == w) = true := hsame ▸ beq_reread hw hwfinite
  constructor
  · exact beq_trans hv (wellFormed_reread hv) hw (beq_symm (wellFormed_reread hv) hv hback) hback'
  · rw [← outline_reread hv, hsame, outline_reread hw]

/-- **Equal values with the keys in the same order have the same document.** -/
theorem document_eq_of_beq (hv : v.WellFormed) (hw : w.WellFormed) (h : v.beq w = true)
    (houtline : v.outline = w.outline) : v.document = w.document := by
  induction v using partInduction generalizing w with
  | null =>
    cases w with
    | null => rfl
    | _ => cases h
  | bool b =>
    cases w with
    | bool b' => exact congrArg Json.bool (eq_of_beq h)
    | _ => cases h
  | number x =>
    cases w with
    | number y => exact numberDocument_eq_of_beq h
    | _ => cases h
  | string s =>
    cases w with
    | string t => exact congrArg Json.string (eq_of_beq h)
    | _ => cases h
  | array items ih =>
    cases w with
    | array items' =>
      rw [outline_array, outline_array, array.injEq, map_eq_map_iff] at houtline
      rw [document_array, document_array, Json.array.injEq, map_eq_map_iff]
      refine ⟨houtline.1, fun x y hmem => ?_⟩
      obtain ⟨hx, hy⟩ := List.of_mem_zip hmem
      exact ih x hx (wellFormedItems_iff.mp hv x hx) (wellFormedItems_iff.mp hw y hy)
        (beq_of_mem_zip h hmem) (houtline.2 x y hmem)
    | _ => cases h
  | object entries ih =>
    cases w with
    | object entries' =>
      rw [outline_object, outline_object, object.injEq, map_eq_map_iff] at houtline
      rw [document_object, document_object, Json.object.injEq, map_eq_map_iff]
      refine ⟨houtline.1, fun x y hmem => ?_⟩
      obtain ⟨hx, hy⟩ := List.of_mem_zip hmem
      obtain ⟨hkey, hsame⟩ := Prod.mk.inj (houtline.2 x y hmem)
      have hdocument := ih x hx (wellFormedEntries_iff.mp hv.2 x hx)
        (wellFormedEntries_iff.mp hw.2 y hy) (beq_of_mem_zip_entries hv.1 hw.1 h hmem hkey) hsame
      rw [hkey, hdocument]
    | _ => cases h

end Finite

/-! ## The text -/

/-- What is left of two values decides whether they have the same document. -/
theorem document_eq_iff {v w : Value} (hv : v.WellFormed) (hw : w.WellFormed) :
    v.document = w.document ↔
      (v.eraseNonFinite == w.eraseNonFinite) = true ∧ v.outline = w.outline := by
  rw [← document_eraseNonFinite v, ← document_eraseNonFinite w, ← outline_eraseNonFinite v,
    ← outline_eraseNonFinite w]
  constructor
  · exact beq_of_document_eq hv.eraseNonFinite hw.eraseNonFinite (isFinite_eraseNonFinite v)
      (isFinite_eraseNonFinite w)
  · rintro ⟨hbeq, houtline⟩
    exact document_eq_of_beq hv.eraseNonFinite hw.eraseNonFinite hbeq houtline

/-- **Two values look the same** exactly if they are equal with `null` in place of the doubles that
are not finite, and have the same keys in the same order. -/
theorem text_eq_iff {v w : Value} (hv : v.WellFormed) (hw : w.WellFormed) :
    v.text = w.text ↔
      (v.eraseNonFinite == w.eraseNonFinite) = true ∧ v.outline = w.outline := by
  have hlegible (u : Value) : u.document.Legible := by
    rw [← document_eraseNonFinite]
    exact legible_document (isFinite_eraseNonFinite u)
  rw [← document_eq_iff hv hw]
  exact ⟨Json.eq_of_write_eq (hlegible v) (hlegible w), congrArg Json.write⟩

end Value

end DecisionRules
