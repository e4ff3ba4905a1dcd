import DecisionRules.Proofs.Json.RoundTrip
import DecisionRules.Proofs.Value.Object
import DecisionRules.Record.Read

/-!
# Proofs/Value/RoundTrip — a value is read back from its text

Writing a value and reading the text goes through documents on both sides, and the documents come
back (`Json.read_write`), if the layer that reads rounds their decimals correctly. What is left is
between values and documents. Reading merges entries with
equal keys, which a well-formed value does not have; and a number may change its kind, since an
integral double of at most `2 ^ 53` is written as an integer. It is an equal double that comes back
then — minus zero as zero — and it is written in the same way again (`Number.exists_ofFloat?`).

So the value read is equal to the one written, with the keys of every object in the same order, and
its text is the same text (`Value.readValue_text`).
-/

namespace DecisionRules

/-! ## Numbers -/

/-- **A finite double is written as a number that stands for an equal double**, and that one is
written as the same number. -/
theorem Number.exists_ofFloat? {x : Float} (hx : Binary64.isFinite x = true) :
    ∃ n, ofFloat? x = some n ∧ n.Legible ∧ (n.toFloat == x) = true ∧
      ofFloat? n.toFloat = some n := by
  have hself : (x == x) = true := Float.beq_self_iff.mpr (Binary64.ne_nan_of_isFinite hx)
  cases hint : Binary64.toInt? x with
  | none =>
    have hwritten : ofFloat? x = some (.double x) := by simp [ofFloat?, hint, hx]
    exact ⟨.double x, hwritten, hx, hself, hwritten⟩
  | some n =>
    by_cases hn : n.natAbs ≤ exactIntegerLimit
    · have hwritten : ofFloat? x = some (.integer n) := by simp [ofFloat?, hint, hn]
      have hlegible : (Number.integer n).Legible := by
        simp only [exactIntegerLimit, Nat.pow_eq] at hn
        simp only [Legible, leastInteger, integerLimit, Nat.pow_eq]
        omega
      rcases Binary64.ofInt_of_toInt? hint with hback | ⟨rfl, rfl⟩
      · refine ⟨.integer n, hwritten, hlegible, ?_, ?_⟩
        · rw [toFloat, hback, hself]
        · rw [toFloat, hback, hwritten]
      · have hzero : Binary64.toInt? (Binary64.ofInt 0) = some 0 := by decide +kernel
        have hequal : (Binary64.ofInt 0 == Binary64.nearest true 0 1) = true := by decide +kernel
        exact ⟨.integer 0, hwritten, hlegible, hequal, by simp [toFloat, ofFloat?, hzero]⟩
    · have hwritten : ofFloat? x = some (.double x) := by simp [ofFloat?, hint, hn]
      exact ⟨.double x, hwritten, hx, hself, hwritten⟩

namespace Value

/-! ## Finite values -/

mutual

/-- Every number in the value is finite. -/
def IsFinite : Value → Prop
  | .number x => Binary64.isFinite x = true
  | .array items => IsFiniteItems items
  | .object entries => IsFiniteEntries entries
  | _ => True
  termination_by structural v => v

/-- Every item is finite. -/
def IsFiniteItems : List Value → Prop
  | [] => True
  | v :: rest => v.IsFinite ∧ IsFiniteItems rest
  termination_by structural items => items

/-- The value of every entry is finite. -/
def IsFiniteEntries : List (String × Value) → Prop
  | [] => True
  | (_, v) :: rest => v.IsFinite ∧ IsFiniteEntries rest
  termination_by structural entries => entries

end

theorem isFiniteEntries_iff {entries : List (String × Value)} :
    IsFiniteEntries entries ↔ ∀ entry ∈ entries, entry.2.IsFinite := by
  induction entries with
  | nil => simp [IsFiniteEntries]
  | cons entry rest ih => rw [IsFiniteEntries, ih, List.forall_mem_cons]

theorem numberDocument_eq {x : Float} (hx : Binary64.isFinite x = true) :
    ∃ n : Number, numberDocument x = .number n ∧ n.Legible ∧ (n.toFloat == x) = true ∧
      numberDocument n.toFloat = .number n := by
  obtain ⟨n, hwritten, hlegible, hback, hagain⟩ := Number.exists_ofFloat? hx
  exact ⟨n, by rw [numberDocument, hwritten], hlegible, hback, by rw [numberDocument, hagain]⟩

mutual

/-- **The document of a finite value is legible.** -/
theorem legible_document : ∀ {v : Value}, v.IsFinite → v.document.Legible
  | .null, _ => trivial
  | .bool _, _ => trivial
  | .number x, h => by
    obtain ⟨n, hwritten, hlegible, -⟩ := numberDocument_eq h
    rw [document, hwritten]
    exact hlegible
  | .string _, _ => trivial
  | .array _, h => legible_documentItems h
  | .object _, h => legible_documentEntries h
  termination_by structural v => v

theorem legible_documentItems : ∀ {items : List Value}, IsFiniteItems items →
    Json.LegibleItems (documentItems items)
  | [], _ => trivial
  | _ :: _, h => ⟨legible_document h.1, legible_documentItems h.2⟩
  termination_by structural items => items

theorem legible_documentEntries : ∀ {entries : List (String × Value)}, IsFiniteEntries entries →
    Json.LegibleEntries (documentEntries entries)
  | [], _ => trivial
  | (_, _) :: _, h => ⟨legible_document h.1, legible_documentEntries h.2⟩
  termination_by structural entries => entries

end

/-! ## Nesting -/

mutual

/-- How many arrays and objects are open at the deepest point. -/
def depth : Value → Nat
  | .array items => depthOfItems items + 1
  | .object entries => depthOfEntries entries + 1
  | _ => 0
  termination_by structural v => v

/-- The greatest depth among the items. -/
def depthOfItems : List Value → Nat
  | [] => 0
  | v :: rest => max v.depth (depthOfItems rest)
  termination_by structural items => items

/-- The greatest depth among the values of the entries. -/
def depthOfEntries : List (String × Value) → Nat
  | [] => 0
  | (_, v) :: rest => max v.depth (depthOfEntries rest)
  termination_by structural entries => entries

end

mutual

/-- **A document nests as deep as its value.** -/
theorem depth_document (v : Value) : v.document.depth = v.depth := by
  cases v with
  | number x =>
    rw [document, numberDocument]
    cases Number.ofFloat? x <;> rfl
  | array items => exact congrArg (· + 1) (depthOfItems_document items)
  | object entries => exact congrArg (· + 1) (depthOfEntries_document entries)
  | _ => rfl
  termination_by structural v

theorem depthOfItems_document (items : List Value) :
    Json.depthOfItems (documentItems items) = depthOfItems items := by
  cases items with
  | nil => rfl
  | cons v rest => exact congrArg₂ max (depth_document v) (depthOfItems_document rest)
  termination_by structural items

theorem depthOfEntries_document (entries : List (String × Value)) :
    Json.depthOfEntries (documentEntries entries) = depthOfEntries entries := by
  cases entries with
  | nil => rfl
  | cons entry rest =>
    exact congrArg₂ max (depth_document entry.2) (depthOfEntries_document rest)
  termination_by structural entries

end

/-! ## The value that comes back -/

mutual

/-- The arrays and objects of a value with their keys in order, everything else left blank. -/
def outline : Value → Value
  | .array items => .array (outlineItems items)
  | .object entries => .object (outlineEntries entries)
  | _ => .null
  termination_by structural v => v

/-- The outlines of the items. -/
def outlineItems : List Value → List Value
  | [] => []
  | v :: rest => v.outline :: outlineItems rest
  termination_by structural items => items

/-- The keys of the entries, each with the outline of its value. -/
def outlineEntries : List (String × Value) → List (String × Value)
  | [] => []
  | (k, v) :: rest => (k, v.outline) :: outlineEntries rest
  termination_by structural entries => entries

end

/-- What the document of a value denotes. -/
def reread (v : Value) : Value := ofJson v.document

/-- The items as their documents denote them. -/
def rereadItems (items : List Value) : List Value := ofJsonItems (documentItems items)

/-- The entries as the documents of their values denote them. -/
def rereadEntries (entries : List (String × Value)) : List (String × Value) :=
  ofJsonEntries (documentEntries entries)

theorem rereadItems_cons (v : Value) (rest : List Value) :
    rereadItems (v :: rest) = v.reread :: rereadItems rest := rfl

theorem rereadEntries_cons (k : String) (v : Value) (rest : List (String × Value)) :
    rereadEntries ((k, v) :: rest) = (k, v.reread) :: rereadEntries rest := rfl

theorem keys_rereadEntries (entries : List (String × Value)) :
    (rereadEntries entries).map Prod.fst = entries.map Prod.fst := by
  induction entries with
  | nil => rfl
  | cons entry rest ih => exact congrArg (entry.1 :: ·) ih

/-- **No key is lost**: the entries of a well-formed object come back one by one. -/
theorem reread_object {entries : List (String × Value)} (h : (entries.map Prod.fst).Nodup) :
    (Value.object entries).reread = .object (rereadEntries entries) := by
  rw [← keys_rereadEntries] at h
  exact congrArg Value.object (ofEntries_of_nodup h)

/-! ### Its outline -/

mutual

/-- **The keys of every object come back in their order.** -/
theorem outline_reread : ∀ {v : Value}, v.WellFormed → v.reread.outline = v.outline
  | .null, _ => rfl
  | .bool _, _ => rfl
  | .number x, _ => by
    rw [reread, document, numberDocument]
    cases Number.ofFloat? x <;> rfl
  | .string _, _ => rfl
  | .array _, h => congrArg Value.array (outlineItems_reread h)
  | .object _, h => by
    rw [reread_object h.1]
    exact congrArg Value.object (outlineEntries_reread h.2)
  termination_by structural v => v

theorem outlineItems_reread : ∀ {items : List Value}, WellFormedItems items →
    outlineItems (rereadItems items) = outlineItems items
  | [], _ => rfl
  | _ :: _, h => congrArg₂ List.cons (outline_reread h.1) (outlineItems_reread h.2)
  termination_by structural items => items

theorem outlineEntries_reread : ∀ {entries : List (String × Value)}, WellFormedEntries entries →
    outlineEntries (rereadEntries entries) = outlineEntries entries
  | [], _ => rfl
  | (k, _) :: _, h =>
    congrArg₂ (fun v rest => (k, v) :: rest) (outline_reread h.1) (outlineEntries_reread h.2)
  termination_by structural entries => entries

end

/-! ### Its document -/

mutual

/-- **What comes back is written in the same way again.** -/
theorem document_reread : ∀ {v : Value}, v.WellFormed → v.IsFinite → v.reread.document = v.document
  | .null, _, _ => rfl
  | .bool _, _, _ => rfl
  | .number x, _, h => by
    obtain ⟨n, hwritten, -, -, hagain⟩ := numberDocument_eq h
    rw [reread, document, hwritten, ofJson, document, hagain]
  | .string _, _, _ => rfl
  | .array _, h, hfinite => congrArg Json.array (documentItems_reread h hfinite)
  | .object _, h, hfinite => by
    rw [reread_object h.1]
    exact congrArg Json.object (documentEntries_reread h.2 hfinite)
  termination_by structural v => v

theorem documentItems_reread : ∀ {items : List Value}, WellFormedItems items →
    IsFiniteItems items → documentItems (rereadItems items) = documentItems items
  | [], _, _ => rfl
  | _ :: _, h, hfinite =>
    congrArg₂ List.cons (document_reread h.1 hfinite.1) (documentItems_reread h.2 hfinite.2)
  termination_by structural items => items

theorem documentEntries_reread : ∀ {entries : List (String × Value)}, WellFormedEntries entries →
    IsFiniteEntries entries → documentEntries (rereadEntries entries) = documentEntries entries
  | [], _, _ => rfl
  | (k, _) :: _, h, hfinite =>
    congrArg₂ (fun j rest => (k, j) :: rest) (document_reread h.1 hfinite.1)
      (documentEntries_reread h.2 hfinite.2)
  termination_by structural entries => entries

end

/-! ### Its equality with the value -/

mutual

/-- **What comes back is equal to what was written.** -/
theorem beq_reread : ∀ {v : Value}, v.WellFormed → v.IsFinite → v.reread.beq v = true
  | .null, _, _ => rfl
  | .bool _, _, _ => by simp [reread, document, ofJson, beq]
  | .number x, _, h => by
    obtain ⟨n, hwritten, -, hback, -⟩ := numberDocument_eq h
    rw [reread, document, hwritten]
    exact hback
  | .string _, _, _ => by simp [reread, document, ofJson, beq]
  | .array _, h, hfinite => beqItems_reread h hfinite
  | .object entries, h, hfinite => by
    have hlength : (rereadEntries entries).length = entries.length := by
      simpa using congrArg List.length (keys_rereadEntries entries)
    rw [reread_object h.1, beq, hlength, beq_self_eq_true, Bool.true_and]
    exact matchesEntries_reread h.2 hfinite fun _ hmem => KeyMap.lookup_of_mem h.1 hmem
  termination_by structural v => v

theorem beqItems_reread : ∀ {items : List Value}, WellFormedItems items → IsFiniteItems items →
    beqItems (rereadItems items) items = true
  | [], _, _ => rfl
  | _ :: _, h, hfinite => by
    rw [rereadItems_cons, beqItems, beq_reread h.1 hfinite.1, beqItems_reread h.2 hfinite.2]
    rfl
  termination_by structural items => items

/-- Entries match wherever look-up finds each of them. -/
theorem matchesEntries_reread : ∀ {entries all : List (String × Value)}, WellFormedEntries entries →
    IsFiniteEntries entries → (∀ entry ∈ entries, all.lookup entry.1 = some entry.2) →
    matchesEntries (rereadEntries entries) all = true
  | [], _, _, _, _ => rfl
  | (k, v) :: rest, all, h, hfinite, hall => by
    have hk : all.lookup k = some v := hall (k, v) List.mem_cons_self
    have hrest := matchesEntries_reread h.2 hfinite.2 fun entry hmem =>
      hall entry (List.mem_cons_of_mem _ hmem)
    rw [rereadEntries_cons, matchesEntries, hk, hrest, Bool.and_true]
    exact beq_reread h.1 hfinite.1
  termination_by structural entries => entries

end

/-! ## The way back -/

/-- Every document has the shape of a value. -/
theorem check_value (j : Json) : Shape.check j .value = .ok () := by
  cases j <;> rfl

/-- **The text of a finite value denotes what its document does.** -/
theorem readValue_text_eq [Rounding] {v : Value} (hfinite : v.IsFinite)
    (hround : v.document.RoundsCorrectly) (hdepth : v.depth ≤ Json.nestingLimit) :
    readValue v.text = .ok v.reread := by
  have hread : Json.read Shape.value.policy v.text = .ok v.document :=
    Json.read_write (legible_document hfinite) hround (by rw [depth_document]; exact hdepth)
  rw [readValue, readText, Shape.read, hread]
  simp only [check_value]
  rfl

/-- **A value is read back from its text**: of a value with finite numbers only, nested at most 127
deep, the text is read, and what is read equals the value, has the keys of every object in the same
order, and has the same text.  The layer that reads is taken to round the decimals in this text
correctly. -/
theorem readValue_text [Rounding] {v : Value} (hkeys : v.WellFormed) (hfinite : v.IsFinite)
    (hround : v.document.RoundsCorrectly) (hdepth : v.depth ≤ 127) :
    ∃ w, readValue v.text = .ok w ∧ (w == v) = true ∧ w.outline = v.outline ∧ w.text = v.text :=
  ⟨v.reread, readValue_text_eq hfinite hround hdepth, beq_reread hkeys hfinite,
    outline_reread hkeys, congrArg Json.write (document_reread hkeys hfinite)⟩

/-- Minus zero, an integral double on either side of the limit, a tenth and the least double there
is, under keys out of order, one of them with characters that are escaped. -/
def assorted : Value :=
  .object
    [("zero", .number (.ofBits 0x8000000000000000)),
      ("limits",
        .array [.number (.ofBits 0x4340000000000000), .number (.ofBits 0x4340000000000001)]),
      ("a \"key\"\n", .object [("tenth", .number (.ofBits 0x3FB999999999999A)), ("none", .null)]),
      ("least", .array [.number (.ofBits 1), .array [], .object [], .bool true])]

theorem readValue_text_assorted :
    letI : Rounding := .toNearest
    assorted.WellFormed ∧ assorted.IsFinite ∧ assorted.document.RoundsCorrectly ∧
      assorted.depth ≤ 127 ∧
        ∃ w, readValue assorted.text = .ok w ∧ (w == assorted) = true ∧
          w.outline = assorted.outline ∧ w.text = assorted.text := by
  let : Rounding := .toNearest
  have hkeys : assorted.WellFormed := by
    simp [assorted, WellFormed, WellFormedItems, WellFormedEntries]
  have hfinite : assorted.IsFinite := by
    simp only [assorted, IsFinite, IsFiniteItems, IsFiniteEntries]
    decide +kernel
  have hdepth : assorted.depth ≤ 127 := by decide +kernel
  have hround : assorted.document.RoundsCorrectly := Json.roundsCorrectly_toNearest _
  exact ⟨hkeys, hfinite, hround, hdepth, readValue_text hkeys hfinite hround hdepth⟩

end Value

end DecisionRules
