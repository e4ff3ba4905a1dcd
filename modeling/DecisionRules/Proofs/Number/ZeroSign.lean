import Mathlib
import DecisionRules.Number.Binary64

/-!
# Proofs/Number/ZeroSign — the sign of a zero

There are two zeros, which are equal and differ in their sign.  `Binary64.unsigned` leaves the sign
out, and doubles that are the same without it are akin (`Binary64.Akin`): they are the same, or
zeros on both sides (`Binary64.unsigned_eq_iff`).

Arithmetic makes akin doubles of akin ones, except that the sign of a zero divisor decides between
two infinities (`Akin.neg`, `Akin.add`, `Akin.sub`, `Akin.mul`, `Akin.div`), and no comparison tells
them apart (`Akin.beq_eq`, `Akin.lt_iff`, `Akin.le_iff`).  All of that is read off what the
operations do with the parts of a double.
-/

namespace DecisionRules.Binary64

/-- A double without the sign of a zero. -/
def unsigned (x : Float) : Float := if x == 0 then 0 else x

theorem zero_beq_zero : ((0 : Float) == 0) = true := by decide +kernel

/-- **What is the same without the sign of a zero** is the same, or a zero on both sides. -/
theorem unsigned_eq_iff {x y : Float} :
    unsigned x = unsigned y ↔ x = y ∨ ((x == 0) = true ∧ (y == 0) = true) := by
  have hzero := zero_beq_zero
  rw [unsigned, unsigned]
  by_cases hx : (x == 0) = true <;> by_cases hy : (y == 0) = true
  · simp [hx, hy]
  · rw [if_pos hx, if_neg hy]
    refine ⟨fun h => absurd (h ▸ hzero) hy, ?_⟩
    rintro (rfl | ⟨-, h⟩)
    · exact absurd hx hy
    · exact absurd h hy
  · rw [if_neg hx, if_pos hy]
    refine ⟨fun h => absurd (h ▸ hzero) hx, ?_⟩
    rintro (rfl | ⟨h, -⟩)
    · exact absurd hy hx
    · exact absurd h hx
  · simp [hx, hy]

/-! ## Doubles in parts -/

open Float.Model (UnpackedFloat Format)

/-- A double in parts without the sign of a zero. -/
def unsign : UnpackedFloat → UnpackedFloat
  | .zero _ => .zero .positive
  | u => u

section Parts

variable (spec : Format) (u v : UnpackedFloat)

theorem unsign_neg : unsign (unsign u).neg = unsign u.neg := by
  cases u <;> rfl

theorem unsign_add : unsign (.add spec (unsign u) (unsign v)) = unsign (.add spec u v) := by
  cases u <;> cases v <;> try rfl
  case zero.zero s t => cases s <;> cases t <;> rfl

theorem unsign_sub : unsign (.sub spec (unsign u) (unsign v)) = unsign (.sub spec u v) := by
  cases u <;> cases v <;> try rfl
  case zero.zero s t => cases s <;> cases t <;> rfl

theorem unsign_mul : unsign (.mul spec (unsign u) (unsign v)) = unsign (.mul spec u v) := by
  cases u <;> cases v <;> rfl

/-- The sign of a zero divisor is the one that counts. -/
theorem unsign_div (h : ∀ s, v ≠ .zero s) :
    unsign (.div spec (unsign u) v) = unsign (.div spec u v) := by
  cases v with
  | zero s => exact absurd rfl (h s)
  | _ => cases u <;> rfl

theorem compare_unsign : (unsign u).compare (unsign v) = u.compare v := by
  cases u with
  | zero s =>
    cases v with
    | infinity t => cases t <;> rfl
    | finite t => cases t <;> rfl
    | _ => rfl
  | infinity s =>
    cases v with
    | zero => cases s <;> rfl
    | _ => rfl
  | finite s =>
    cases v with
    | zero => cases s <;> rfl
    | _ => rfl
  | notANumber => cases v <;> rfl

end Parts

/-! ## Doubles -/

theorem unpack_zero : (0 : Float).toModel.unpack = .zero .positive := by rfl

/-- What equals zero is a zero. -/
theorem beq_zero_iff {x : Float} : (x == 0) = true ↔ ∃ s, x.toModel.unpack = .zero s := by
  have hbeq : (x == 0) = x.toModel.unpack.beq (0 : Float).toModel.unpack := rfl
  rw [hbeq, unpack_zero]
  rcases x.toModel.unpack with s | _ | s | ⟨s, m, e, hm⟩
  · cases s <;> simp [UnpackedFloat.beq, UnpackedFloat.compare]
  · simp [UnpackedFloat.beq, UnpackedFloat.compare]
  · simp [UnpackedFloat.beq, UnpackedFloat.compare]
  · cases s <;> simp [UnpackedFloat.beq, UnpackedFloat.compare]

theorem unpack_unsigned (x : Float) : (unsigned x).toModel.unpack = unsign x.toModel.unpack := by
  rw [unsigned]
  split
  · rename_i hzero
    obtain ⟨s, hs⟩ := beq_zero_iff.mp hzero
    rw [unpack_zero, hs]
    rfl
  · rename_i hzero
    cases hu : x.toModel.unpack with
    | zero s => exact absurd (beq_zero_iff.mpr ⟨s, hu⟩) hzero
    | _ => rfl

/-- Two doubles that differ in the sign of a zero at most. -/
def Akin (x y : Float) : Prop := unsigned x = unsigned y

/-- A double put together from parts. -/
def ofParts (u : UnpackedFloat) : Float := .ofModel (.pack u)

/-- The sign of a zero does not get into anything else when parts are put together. -/
theorem Akin.ofParts {u v : UnpackedFloat} (h : unsign u = unsign v) :
    Akin (ofParts u) (ofParts v) := by
  have hunsign (u : UnpackedFloat) : Akin (Binary64.ofParts (unsign u)) (Binary64.ofParts u) := by
    cases u with
    | zero s =>
      have hzero (s : UnpackedFloat.Sign) : (Binary64.ofParts (.zero s) == 0) = true :=
        beq_zero_iff.mpr ⟨s, UnpackedFloat.unpack_packedZero⟩
      exact unsigned_eq_iff.mpr (.inr ⟨hzero _, hzero s⟩)
    | _ => rfl
  calc unsigned (Binary64.ofParts u)
    _ = unsigned (Binary64.ofParts (unsign u)) := (hunsign u).symm
    _ = unsigned (Binary64.ofParts (unsign v)) := by rw [h]
    _ = unsigned (Binary64.ofParts v) := hunsign v

namespace Akin

variable {x y x' y' : Float}

/-- Doubles that are equal are akin. -/
theorem of_beq (h : (x == y) = true) : Akin x y := by
  have hnegative : ((-0 : Float) == 0) = true := by decide +kernel
  rcases (Float.beq_iff_ne_nan_and_eq.mp h).2.2 with rfl | ⟨rfl, rfl⟩ | ⟨rfl, rfl⟩
  · rfl
  · exact unsigned_eq_iff.mpr (.inr ⟨zero_beq_zero, hnegative⟩)
  · exact unsigned_eq_iff.mpr (.inr ⟨hnegative, zero_beq_zero⟩)

theorem unsign_unpack (h : Akin x y) : unsign x.toModel.unpack = unsign y.toModel.unpack := by
  rw [← unpack_unsigned, h, unpack_unsigned]

theorem neg (h : Akin x y) : Akin (-x) (-y) := by
  have hparts := h.unsign_unpack
  refine @Akin.ofParts (.neg _) (.neg _) ?_
  rw [← unsign_neg, hparts, unsign_neg]

theorem add (h : Akin x y) (h' : Akin x' y') : Akin (x + x') (y + y') := by
  refine @Akin.ofParts (.add _ _ _) (.add _ _ _) ?_
  rw [← unsign_add, h.unsign_unpack, h'.unsign_unpack, unsign_add]

theorem sub (h : Akin x y) (h' : Akin x' y') : Akin (x - x') (y - y') := by
  refine @Akin.ofParts (.sub _ _ _) (.sub _ _ _) ?_
  rw [← unsign_sub, h.unsign_unpack, h'.unsign_unpack, unsign_sub]

theorem mul (h : Akin x y) (h' : Akin x' y') : Akin (x * x') (y * y') := by
  refine @Akin.ofParts (.mul _ _ _) (.mul _ _ _) ?_
  rw [← unsign_mul, h.unsign_unpack, h'.unsign_unpack, unsign_mul]

/-- A divisor that is not zero has no sign to leave out. -/
theorem eq_of_beq_zero_eq_false (h : Akin x y) (hx : (x == 0) = false) : x = y := by
  rcases unsigned_eq_iff.mp h with rfl | ⟨hzero, -⟩
  · rfl
  · rw [hx] at hzero
    cases hzero

/-- **Division by what is not zero.** -/
theorem div (h : Akin x y) {d : Float} (hd : (d == 0) = false) : Akin (x / d) (y / d) := by
  have hparts (s : UnpackedFloat.Sign) : d.toModel.unpack ≠ .zero s := fun hs => by
    rw [beq_zero_iff.mpr ⟨s, hs⟩] at hd
    cases hd
  refine @Akin.ofParts (.div _ _ _) (.div _ _ _) ?_
  rw [← unsign_div _ _ _ hparts, h.unsign_unpack, unsign_div _ _ _ hparts]

theorem compare_unpack (h : Akin x y) (h' : Akin x' y') :
    x.toModel.unpack.compare x'.toModel.unpack = y.toModel.unpack.compare y'.toModel.unpack := by
  rw [← compare_unsign, h.unsign_unpack, h'.unsign_unpack, compare_unsign]

/-- **No relation between two doubles tells the zeros apart.** -/
theorem beq_eq (h : Akin x y) (h' : Akin x' y') : (x == x') = (y == y') := by
  have hbeq (a b : Float) :
      (a == b) = (a.toModel.unpack.compare b.toModel.unpack == some .eq) := rfl
  rw [hbeq, hbeq, h.compare_unpack h']

theorem lt_iff (h : Akin x y) (h' : Akin x' y') : x < x' ↔ y < y' := by
  have hlt (a b : Float) : a < b ↔
      (a.toModel.unpack.compare b.toModel.unpack == some .lt) = true := decide_eq_true_iff
  rw [hlt, hlt, h.compare_unpack h']

theorem le_iff (h : Akin x y) (h' : Akin x' y') : x ≤ x' ↔ y ≤ y' := by
  have hle (a b : Float) : a ≤ b ↔
      (a.toModel.unpack.compare b.toModel.unpack).any (·.isLE) = true := decide_eq_true_iff
  rw [hle, hle, h.compare_unpack h']

theorem isNaN_eq (h : Akin x y) : x.isNaN = y.isNaN := by
  have hnan (u : UnpackedFloat) : (unsign u).isNaN = u.isNaN := by
    cases u <;> rfl
  have hparts (a : Float) : a.isNaN = a.toModel.unpack.isNaN := rfl
  rw [hparts, hparts, ← hnan, h.unsign_unpack, hnan]

end Akin

/-- Without the sign of a zero, a double is akin to what it was. -/
theorem akin_unsigned (x : Float) : Akin (unsigned x) x := by
  by_cases hx : (x == 0) = true
  · have hzero : unsigned x = 0 := if_pos hx
    rw [hzero]
    exact unsigned_eq_iff.mpr (.inr ⟨zero_beq_zero, hx⟩)
  · exact congrArg unsigned (if_neg hx)

end DecisionRules.Binary64
