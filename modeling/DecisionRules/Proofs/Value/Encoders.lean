import DecisionRules.Proofs.Value.Appearance

/-!
# Proofs/Value/Encoders — two encoders of a value agree

A value is encoded twice: `Value.document` keeps the keys of an object in their order and is what
gets printed, `Value.toJson` sorts them at every level and is a plain document.  They take the same
decisions about numbers, and differ in how they go through an object.

That is the whole difference.  The printed document with its keys sorted is the plain one
(`Value.normalize_document`); and since every printed document is legible, those of values with
doubles that are not finite too, a plain reader finds exactly the plain document in the printed text
(`Value.parse_text_eq_toJson`), if the layer below rounds its decimals correctly.
-/

namespace DecisionRules

/-! ## Documents, part by part -/

namespace Json

theorem normalize_array (items : List Json) :
    (Json.array items).normalize = .array (items.map normalize) :=
  congrArg Json.array (Value.eq_map_of_cons rfl (fun _ _ => rfl) items)

theorem normalize_object (entries : List (String × Json)) : (Json.object entries).normalize =
    .object (KeyMap.sortEntries (entries.map fun entry => (entry.1, entry.2.normalize))) := by
  rw [normalize, normalizeEntries_eq_map]

end Json

namespace Value

section Parts

variable (items : List Value) (entries : List (String × Value))

theorem toJson_array : (Value.array items).toJson = .array (items.map toJson) :=
  congrArg Json.array (eq_map_of_cons rfl (fun _ _ => rfl) items)

theorem toJson_object : (Value.object entries).toJson =
    .object (KeyMap.sortEntries (entries.map fun entry => (entry.1, entry.2.toJson))) := by
  rw [toJson, toJsonEntries_eq_map]

end Parts

/-! ## From one to the other -/

/-- A double is written in one way, and there is nothing to sort in it. -/
theorem normalize_numberDocument (x : Float) : (numberDocument x).normalize = numberDocument x := by
  rw [numberDocument]
  cases Number.ofFloat? x <;> rfl

/-- **The printed document with its keys sorted is the plain one.** -/
theorem normalize_document (v : Value) : v.document.normalize = v.toJson := by
  induction v using partInduction with
  | number x => exact normalize_numberDocument x
  | array items ih =>
    rw [document_array, Json.normalize_array, toJson_array, List.map_map]
    exact congrArg Json.array (List.map_congr_left ih)
  | object entries ih =>
    have hparts : (entries.map fun entry => (entry.1, entry.2.document)).map
        (fun entry => (entry.1, entry.2.normalize)) =
        entries.map fun entry => (entry.1, entry.2.toJson) := by
      rw [List.map_map]
      exact List.map_congr_left fun entry hentry => congrArg (Prod.mk entry.1) (ih entry hentry)
    rw [document_object, Json.normalize_object, toJson_object, hparts]
  | _ => rfl

/-- **Every printed document is legible**: what is not finite is printed as `null`. -/
theorem legible_document_of_any (v : Value) : v.document.Legible := by
  rw [← document_eraseNonFinite]
  exact legible_document (isFinite_eraseNonFinite v)

/-- What is printed is read back as it was printed, up to the nesting that a reader has room for. -/
theorem parse_text [Rounding] {v : Value} (hround : v.document.RoundsCorrectly)
    (hdepth : v.depth ≤ Json.nestingLimit) : Json.parse v.text = .ok v.document :=
  Json.read_write (legible_document_of_any v) hround (by rwa [depth_document])

/-- **Two encoders agree.**  Whatever a value nested at most 127 deep holds, its printed text is
that of a document; and that document with its keys sorted, which is what a plain reader gives, is
the plain document of the value, the same and equal to it.  The layer that reads is taken to round
the decimals in this text correctly. -/
theorem parse_text_eq_toJson [Rounding] (v : Value) (hround : v.document.RoundsCorrectly)
    (hdepth : v.depth ≤ 127) :
    ∃ j, (Json.parse v.text).map Json.normalize = .ok j ∧ j = v.toJson ∧
      (j == v.toJson) = true := by
  refine ⟨v.document.normalize, ?_, normalize_document v, ?_⟩
  · rw [parse_text hround hdepth]
    rfl
  · rw [normalize_document]
    exact Json.beq_self (legible_toJson v)

/-- Doubles that are not finite, minus zero and integral doubles on either side of the limit, of
either sign, under keys that are out of order at two depths. -/
theorem parse_text_eq_toJson_limits :
    letI : Rounding := .toNearest
    let v : Value := .object
      [("z", .array [.number (.ofBits 0x7FF0000000000000), .number Float.nan, .number (-0)]),
        ("limits", .object [("above", .number (.ofBits 0x4340000000000001)),
          ("Above", .number (.ofBits 0xC340000000000001)),
          ("at", .number (.ofBits 0x4340000000000000)),
          ("At", .number (.ofBits 0xC340000000000000))]),
        ("\n", .null)]
    v.document.RoundsCorrectly ∧ v.depth ≤ 127 ∧
      ∃ j, (Json.parse v.text).map Json.normalize = .ok j ∧ j = v.toJson ∧
        (j == v.toJson) = true ∧ j.write =
          "\x7b\"\\n\":null,\"limits\":\x7b\"Above\":-9007199254740994.0," ++
            "\"At\":-9007199254740992,\"above\":9007199254740994.0," ++
              "\"at\":9007199254740992\x7d,\"z\":[null,null,0]\x7d" := by
  let : Rounding := .toNearest
  intro v
  have hround : v.document.RoundsCorrectly := Json.roundsCorrectly_toNearest _
  have hdepth : v.depth ≤ 127 := by decide
  obtain ⟨j, hparse, hsame, hequal⟩ := parse_text_eq_toJson v hround hdepth
  exact ⟨hround, hdepth, j, hparse, hsame, hequal, by rw [hsame]; decide +kernel⟩

end Value

end DecisionRules
