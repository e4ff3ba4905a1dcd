import DecisionRules.Proofs.Number.ZeroSign
import DecisionRules.Proofs.Value.Related
import DecisionRules.Proofs.Value.RoundTrip

/-!
# Proofs/Value/ZeroSign — values that differ in the signs of zeros

Two values are akin if they are the same once every zero has lost its sign (`Value.unsigned`).
Taken apart, such values are the same scalar, or akin numbers, or arrays of akin items, or objects
of akin entries under the same keys in the same order (`Value.Akin.split`).

Nothing that is done with values tells them apart: they have one text (`Akin.document_eq`), the same
values are equal to them (`Akin.beq_eq`), and paths lead to akin values (`Akin.resolve`).  And a
value that is written and read back is akin to what was written (`Value.akin_reread`).
-/

namespace DecisionRules

namespace Value

mutual

/-- The value without the signs of zeros. -/
def unsigned : Value → Value
  | .number x => .number (Binary64.unsigned x)
  | .array items => .array (unsignedItems items)
  | .object entries => .object (unsignedEntries entries)
  | v => v
  termination_by structural v => v

/-- `unsigned` on every item. -/
def unsignedItems : List Value → List Value
  | [] => []
  | v :: rest => v.unsigned :: unsignedItems rest
  termination_by structural items => items

/-- `unsigned` on the value of every entry. -/
def unsignedEntries : List (String × Value) → List (String × Value)
  | [] => []
  | (k, v) :: rest => (k, v.unsigned) :: unsignedEntries rest
  termination_by structural entries => entries

end

/-- Two values that differ in the signs of zeros at most. -/
def Akin (v w : Value) : Prop := v.unsigned = w.unsigned

/-- Two entries under one key, with akin values. -/
def AkinEntry (entry other : String × Value) : Prop :=
  entry.1 = other.1 ∧ entry.2.Akin other.2

theorem unsignedItems_eq_iff {xs ys : List Value} :
    unsignedItems xs = unsignedItems ys ↔ List.Forall₂ Akin xs ys := by
  induction xs generalizing ys with
  | nil => cases ys <;> simp [unsignedItems]
  | cons x xs ih => cases ys <;> simp [unsignedItems, ih, Akin]

theorem unsignedEntries_eq_iff {xs ys : List (String × Value)} :
    unsignedEntries xs = unsignedEntries ys ↔ List.Forall₂ AkinEntry xs ys := by
  induction xs generalizing ys with
  | nil => cases ys <;> simp [unsignedEntries]
  | cons x xs ih => cases ys <;> simp [unsignedEntries, ih, AkinEntry, Akin]

namespace Akin

theorem refl (v : Value) : Akin v v := rfl

theorem symm {v w : Value} (h : Akin v w) : Akin w v := Eq.symm h

theorem number {x y : Float} (h : Binary64.Akin x y) : Akin (.number x) (.number y) :=
  congrArg Value.number h

/-- Items that are akin make akin arrays. -/
theorem array {xs ys : List Value} (h : List.Forall₂ Akin xs ys) : Akin (.array xs) (.array ys) :=
  congrArg Value.array (unsignedItems_eq_iff.mpr h)

/-- Entries that are akin make akin objects. -/
theorem object {xs ys : List (String × Value)} (h : List.Forall₂ AkinEntry xs ys) :
    Akin (.object xs) (.object ys) :=
  congrArg Value.object (unsignedEntries_eq_iff.mpr h)

/-- **What akin values are made of.** -/
theorem split {motive : ∀ v w, Akin v w → Prop} (null : motive .null .null (.refl _))
    (bool : ∀ b, motive (.bool b) (.bool b) (.refl _))
    (number : ∀ x y (h : Binary64.Akin x y), motive _ _ (.number h))
    (string : ∀ s, motive (.string s) (.string s) (.refl _))
    (array : ∀ xs ys (h : List.Forall₂ Akin xs ys), motive _ _ (.array h))
    (object : ∀ xs ys (h : List.Forall₂ AkinEntry xs ys), motive _ _ (.object h))
    {v w : Value} (h : Akin v w) : motive v w h := by
  have hunsigned : v.unsigned = w.unsigned := h
  rcases v with _ | b | x | s | xs | xs <;> rcases w with _ | b' | x' | s' | ys | ys <;>
    try cases hunsigned
  case null.null => exact null
  case bool.bool => exact bool b
  case number.number => exact number x x' (Value.number.inj h)
  case string.string => exact string s
  case array.array => exact array xs ys (unsignedItems_eq_iff.mp (Value.array.inj h))
  case object.object => exact object xs ys (unsignedEntries_eq_iff.mp (Value.object.inj h))

end Akin

/-! ## What is the same of akin values -/

/-- A zero of any sign is written as an integer. -/
theorem numberDocument_of_beq_zero {x : Float} (h : (x == 0) = true) :
    numberDocument x = .number (.integer 0) := by
  have hint : Binary64.toInt? x = some 0 := by
    rcases (Float.beq_iff_ne_nan_and_eq.mp h).2.2 with rfl | ⟨rfl, -⟩ | ⟨rfl, -⟩ <;>
      decide +kernel
  simp [numberDocument, Number.ofFloat?, hint]

theorem numberDocument_unsigned (x : Float) :
    numberDocument (Binary64.unsigned x) = numberDocument x := by
  rcases Binary64.unsigned_eq_iff.mp (Binary64.akin_unsigned x) with h | ⟨hzero, hx⟩
  · rw [h]
  · rw [numberDocument_of_beq_zero hzero, numberDocument_of_beq_zero hx]

mutual

theorem document_unsigned (v : Value) : v.unsigned.document = v.document := by
  cases v with
  | number x => exact numberDocument_unsigned x
  | array items => exact congrArg Json.array (documentItems_unsigned items)
  | object entries => exact congrArg Json.object (documentEntries_unsigned entries)
  | _ => rfl
  termination_by structural v

theorem documentItems_unsigned (items : List Value) :
    documentItems (unsignedItems items) = documentItems items := by
  cases items with
  | nil => rfl
  | cons v rest => exact congrArg₂ List.cons (document_unsigned v) (documentItems_unsigned rest)
  termination_by structural items

theorem documentEntries_unsigned (entries : List (String × Value)) :
    documentEntries (unsignedEntries entries) = documentEntries entries := by
  cases entries with
  | nil => rfl
  | cons entry rest =>
    exact congrArg₂ (fun j rest => (entry.1, j) :: rest) (document_unsigned entry.2)
      (documentEntries_unsigned rest)
  termination_by structural entries

end

theorem length_unsignedEntries (entries : List (String × Value)) :
    (unsignedEntries entries).length = entries.length := by
  induction entries with
  | nil => rfl
  | cons entry rest ih => exact congrArg (· + 1) ih

theorem lookup_unsignedEntries (key : String) (entries : List (String × Value)) :
    (unsignedEntries entries).lookup key = (entries.lookup key).map unsigned := by
  induction entries with
  | nil => rfl
  | cons entry rest ih =>
    rw [unsignedEntries, KeyMap.lookup_cons, KeyMap.lookup_cons, ih]
    split <;> rfl

mutual

theorem beq_unsigned : ∀ v w : Value, v.unsigned.beq w.unsigned = v.beq w
  | .number x, w => by
    cases w with
    | number y => exact (Binary64.akin_unsigned x).beq_eq (Binary64.akin_unsigned y)
    | _ => rfl
  | .array xs, w => by
    cases w with
    | array ys => exact beqItems_unsigned xs ys
    | _ => rfl
  | .object xs, w => by
    cases w with
    | object ys =>
      change ((unsignedEntries xs).length == (unsignedEntries ys).length &&
        matchesEntries (unsignedEntries xs) (unsignedEntries ys)) = _
      rw [length_unsignedEntries, length_unsignedEntries, matchesEntries_unsigned xs ys]
      rfl
    | _ => rfl
  | .null, w => by cases w <;> rfl
  | .bool _, w => by cases w <;> rfl
  | .string _, w => by cases w <;> rfl
  termination_by structural v => v

theorem beqItems_unsigned : ∀ xs ys : List Value,
    beqItems (unsignedItems xs) (unsignedItems ys) = beqItems xs ys
  | [], ys => by cases ys <;> rfl
  | x :: xs, ys => by
    cases ys with
    | nil => rfl
    | cons y ys => exact congrArg₂ (· && ·) (beq_unsigned x y) (beqItems_unsigned xs ys)
  termination_by structural xs => xs

theorem matchesEntries_unsigned : ∀ xs ys : List (String × Value),
    matchesEntries (unsignedEntries xs) (unsignedEntries ys) = matchesEntries xs ys
  | [], _ => rfl
  | (k, v) :: rest, ys => by
    rw [unsignedEntries, matchesEntries, matchesEntries, matchesEntries_unsigned rest ys,
      lookup_unsignedEntries]
    cases ys.lookup k with
    | none => rfl
    | some w =>
      simp only [Option.map_some, beq_unsigned v w]
  termination_by structural xs => xs

end

namespace Akin

variable {v w v' w' : Value}

theorem document_eq (h : Akin v w) : v.document = w.document := by
  rw [← document_unsigned, h, document_unsigned]

theorem displayText_eq (h : Akin v w) : v.displayText = w.displayText := by
  have htext := congrArg Json.write h.document_eq
  cases h using Akin.split with
  | string s => rfl
  | _ => exact htext

/-- **The same values are equal to akin values.** -/
theorem beq_eq (h : Akin v w) (h' : Akin v' w') : (v == v') = (w == w') := by
  change v.beq v' = w.beq w'
  rw [← beq_unsigned, h, h', beq_unsigned]

theorem isNull_eq (h : Akin v w) : v.isNull = w.isNull := by
  cases h using Akin.split <;> rfl

theorem string?_eq (h : Akin v w) : v.string? = w.string? := by
  cases h using Akin.split <;> rfl

theorem truthy_eq (h : Akin v w) : v.truthy = w.truthy := by
  cases h using Akin.split with
  | number x y h => exact congrArg (!·) (h.beq_eq rfl)
  | array xs ys h => cases h <;> rfl
  | object xs ys h => cases h <;> rfl
  | _ => rfl

/-! ## Paths -/

theorem lookup {xs ys : List (String × Value)} (h : List.Forall₂ AkinEntry xs ys) (key : String) :
    Option.Rel Akin (xs.lookup key) (ys.lookup key) := by
  induction h with
  | nil => exact .none
  | @cons entry other xs ys hentry _ ih =>
    rw [KeyMap.lookup_cons, KeyMap.lookup_cons, hentry.1]
    split
    · exact .some hentry.2
    · exact ih

/-- An insertion into akin objects leaves them so. -/
theorem insert {xs ys : List (String × Value)} (h : List.Forall₂ AkinEntry xs ys) (key : String)
    (hvw : Akin v w) : List.Forall₂ AkinEntry (Value.insert key v xs) (Value.insert key w ys) := by
  induction h with
  | nil => exact .cons ⟨rfl, hvw⟩ .nil
  | @cons entry other xs ys hentry hrest ih =>
    rw [Value.insert, Value.insert, hentry.1]
    split
    · exact .cons ⟨rfl, hvw⟩ hrest
    · exact .cons ⟨rfl, hentry.2⟩ ih

theorem child? (h : Akin v w) (segment : String) :
    Option.Rel Akin (v.child? segment) (w.child? segment) := by
  cases h using Akin.split with
  | array xs ys h =>
    rw [Value.child?, Value.child?]
    rcases position? segment with _ | i
    · exact .none
    · exact rel_getElem? h i
  | object xs ys h => exact Akin.lookup h segment
  | _ => exact .none

/-- **A path leads to akin values.** -/
theorem resolve (h : Akin v w) (path : String) :
    Option.Rel Akin (v.resolve path) (w.resolve path) :=
  rel_resolve Akin.child? h path

end Akin

/-! ## Writing and reading -/

mutual

/-- **A value that is read back differs in the signs of zeros at most.** -/
theorem akin_reread : ∀ {v : Value}, v.WellFormed → v.IsFinite → Akin v.reread v
  | .null, _, _ => rfl
  | .bool _, _, _ => rfl
  | .number x, _, h => by
    obtain ⟨n, hwritten, -, hback, -⟩ := numberDocument_eq h
    rw [reread, document, hwritten]
    exact .number (.of_beq hback)
  | .string _, _, _ => rfl
  | .array _, h, hfinite => .array (akin_rereadItems h hfinite)
  | .object _, h, hfinite => by
    rw [reread_object h.1]
    exact .object (akin_rereadEntries h.2 hfinite)
  termination_by structural v => v

theorem akin_rereadItems : ∀ {items : List Value}, WellFormedItems items → IsFiniteItems items →
    List.Forall₂ Akin (rereadItems items) items
  | [], _, _ => .nil
  | _ :: _, h, hfinite => .cons (akin_reread h.1 hfinite.1) (akin_rereadItems h.2 hfinite.2)
  termination_by structural items => items

theorem akin_rereadEntries : ∀ {entries : List (String × Value)}, WellFormedEntries entries →
    IsFiniteEntries entries → List.Forall₂ AkinEntry (rereadEntries entries) entries
  | [], _, _ => .nil
  | (_, _) :: _, h, hfinite =>
    .cons ⟨rfl, akin_reread h.1 hfinite.1⟩ (akin_rereadEntries h.2 hfinite.2)
  termination_by structural entries => entries

end

end Value

end DecisionRules
