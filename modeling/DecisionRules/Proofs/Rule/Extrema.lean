import DecisionRules.Proofs.Number.Order
import DecisionRules.Proofs.Rule.NumericOutcome

/-!
# Proofs/Rule/Extrema — the extremum of numbers, whatever their order

`max` and `min` keep one number while they go through the others.  What they keep is at every moment
an extremum of what they have seen (`Rule.IsExtremum`): it is one of those doubles, and it bounds
every one of them that is a number.  The double that is no number bounds none, so it is only kept
while nothing else has been seen.  The first argument starts the fold and is no exception, because a
single double is its own extremum.

Two extrema of the same numbers bound each other, so they are equal (`Rule.IsExtremum.beq`).  That
is why the order of the arguments does not show, except in the sign of a zero.
-/

namespace DecisionRules

namespace Extremum

/-- One number is on the outer side of another one: above it for `max`, below it for `min`. -/
def Bounds : Extremum → Float → Float → Prop
  | .max, bound, x => x ≤ bound
  | .min, bound, x => bound ≤ x

/-- A double bounds another one if that is a number. -/
def Covers (m : Extremum) (bound x : Float) : Prop := x.isNaN = false → m.Bounds bound x

variable {m : Extremum} {x y z : Float}

theorem Bounds.isNaN_eq_false (h : m.Bounds x y) : x.isNaN = false ∧ y.isNaN = false := by
  cases m with
  | max => exact (Binary64.isNaN_eq_false_of_le h).symm
  | min => exact Binary64.isNaN_eq_false_of_le h

theorem Bounds.beq (h : m.Bounds x y) (h' : m.Bounds y x) : (x == y) = true := by
  cases m with
  | max => exact Binary64.beq_of_le_of_le h' h
  | min => exact Binary64.beq_of_le_of_le h h'

theorem Bounds.trans (h : m.Bounds x y) (h' : m.Bounds y z) : m.Bounds x z := by
  cases m with
  | max => exact Binary64.le_trans h' h
  | min => exact Binary64.le_trans h h'

theorem Covers.refl (m : Extremum) (x : Float) : m.Covers x x := by
  intro hx
  cases m <;> exact Binary64.le_refl hx

theorem Covers.trans (h : m.Covers x y) (h' : m.Covers y z) : m.Covers x z := by
  intro hz
  have hyz : m.Bounds y z := h' hz
  exact (h hyz.isNaN_eq_false.1).trans hyz

end Extremum

namespace Rule

variable {m : Extremum} {x y kept result result' : Float} {numbers front : List Float}

/-! ## One step -/

/-- **Of two doubles one is kept, and it covers the other.** -/
theorem pick_cases (m : Extremum) (x y : Float) :
    (pick m x y = x ∧ m.Covers x y) ∨ (pick m x y = y ∧ m.Covers y x) := by
  rw [pick.eq_def]
  by_cases hx : x.isNaN = true
  · exact .inr ⟨if_pos hx, fun hnumber => absurd hx (Bool.eq_false_iff.mp hnumber)⟩
  by_cases hy : y.isNaN = true
  · exact .inl ⟨by rw [if_neg hx, if_pos hy],
      fun hnumber => absurd hy (Bool.eq_false_iff.mp hnumber)⟩
  have hx' : x.isNaN = false := Bool.eq_false_iff.mpr hx
  have hy' : y.isNaN = false := Bool.eq_false_iff.mpr hy
  rw [if_neg hx, if_neg hy]
  cases m with
  | max =>
    by_cases hlt : x < y
    · exact .inr ⟨if_pos hlt, fun _ => Binary64.le_of_lt hlt⟩
    · exact .inl ⟨if_neg hlt, fun _ => Binary64.le_of_not_lt hx' hy' hlt⟩
  | min =>
    by_cases hlt : y < x
    · exact .inr ⟨if_pos hlt, fun _ => Binary64.le_of_lt hlt⟩
    · exact .inl ⟨if_neg hlt, fun _ => Binary64.le_of_not_lt hy' hx' hlt⟩

/-! ## The fold -/

/-- A double is an extremum of several: one of them, and it covers all. -/
structure IsExtremum (m : Extremum) (numbers : List Float) (result : Float) : Prop where
  mem : result ∈ numbers
  covers : ∀ x ∈ numbers, m.Covers result x

namespace IsExtremum

theorem single (m : Extremum) (x : Float) : IsExtremum m [x] x :=
  ⟨List.mem_singleton_self x, List.forall_mem_singleton.mpr (.refl m x)⟩

/-- **A step keeps an extremum** of what has been seen. -/
theorem pick (h : IsExtremum m front kept) (y : Float) :
    IsExtremum m (front ++ [y]) (pick m kept y) := by
  obtain ⟨hpick, hcovers⟩ | ⟨hpick, hcovers⟩ := pick_cases m kept y
  · rw [hpick]
    exact ⟨List.mem_append_left [y] h.mem,
      List.forall_mem_append.mpr ⟨h.covers, List.forall_mem_singleton.mpr hcovers⟩⟩
  · rw [hpick]
    exact ⟨List.mem_append_right front (List.mem_singleton_self y), List.forall_mem_append.mpr
      ⟨fun x hx => hcovers.trans (h.covers x hx), List.forall_mem_singleton.mpr (.refl m y)⟩⟩

/-- **What is kept in the end** is an extremum of everything. -/
theorem foldl (h : IsExtremum m front kept) (rest : List Float) :
    IsExtremum m (front ++ rest) (rest.foldl (Rule.pick m) kept) := by
  induction rest generalizing front kept with
  | nil => rwa [List.append_nil]
  | cons y rest ih => simpa using ih (h.pick y)

theorem perm (h : IsExtremum m front result) (hperm : numbers.Perm front) :
    IsExtremum m numbers result :=
  ⟨hperm.mem_iff.mpr h.mem, fun x hx => h.covers x (hperm.mem_iff.mp hx)⟩

/-- **An extremum is a number if there is one.** -/
theorem isNaN_eq_false (h : IsExtremum m numbers result) (hx : x ∈ numbers)
    (hnumber : x.isNaN = false) : result.isNaN = false :=
  (h.covers x hx hnumber).isNaN_eq_false.1

/-- **Extrema of the same numbers are equal.** -/
theorem beq (h : IsExtremum m numbers result) (h' : IsExtremum m numbers result')
    (hnumber : result.isNaN = false) : (result' == result) = true :=
  (h'.covers result h.mem hnumber).beq
    (h.covers result' h'.mem (h'.isNaN_eq_false h.mem hnumber))

end IsExtremum

/-- **A node that looks for an extremum** of at least one number finds one. -/
theorem exists_evaluate_extremum {c : Value} {args : List Value} (m : Extremum)
    (hargs : Value.ComeToNumbers c args numbers) (hne : args ≠ []) :
    ∃ result, IsExtremum m numbers result ∧
      ∃ trace, evaluate ((Operator.extremum m).node args) c = .ok ⟨.number result, trace⟩ := by
  obtain ⟨first, rest, rfl⟩ : ∃ first rest, numbers = first :: rest := by
    refine List.exists_cons_of_ne_nil fun hnil => hne ?_
    exact List.length_eq_zero_iff.mp ((List.Forall₂.length_eq hargs).trans (hnil ▸ rfl))
  exact ⟨rest.foldl (pick m) first, (IsExtremum.single m first).foldl rest,
    Operator.exists_evaluate_of_comeToNumbers rfl hargs rfl⟩

end Rule

open Rule

/-- **`max` and `min` find the extremum of numbers.**  Let there be at least one argument, and let
all of them come to numbers.  Then both operators succeed.  If one of the arguments is not the
double that is no number, the result is not that double either; it equals one of the arguments; it
bounds all those that are numbers, for `max` from above and for `min` from below; and the arguments
in any other order give an equal result.  If all arguments are that double, so is the result. -/
theorem extremum_bounds {c : Value} {args : List Value} {numbers : List Float} (m : Extremum)
    (hargs : Value.ComeToNumbers c args numbers) (hne : args ≠ []) :
    ∃ result trace,
      evaluate ((Operator.extremum m).node args) c = .ok ⟨.number result, trace⟩ ∧
      ((∃ x ∈ numbers, x.isNaN = false) →
        result.isNaN = false ∧ (∃ x ∈ numbers, (result == x) = true) ∧
        (∀ x ∈ numbers, x.isNaN = false → m.Bounds result x) ∧
        ∀ args' : List Value, args'.Perm args → ∃ result' trace',
          evaluate ((Operator.extremum m).node args') c = .ok ⟨.number result', trace'⟩ ∧
          (result' == result) = true) ∧
      ((∀ x ∈ numbers, x.isNaN = true) → result.isNaN = true) := by
  obtain ⟨result, hresult, trace, hevaluate⟩ := exists_evaluate_extremum m hargs hne
  refine ⟨result, trace, hevaluate, ?someNumber, fun hnone => hnone result hresult.mem⟩
  rintro ⟨x, hx, hnumber⟩
  have hnumber' : result.isNaN = false := hresult.isNaN_eq_false hx hnumber
  refine ⟨hnumber', ⟨result, hresult.mem, ?equal⟩, hresult.covers, ?permuted⟩
  case equal => exact hresult.beq hresult hnumber'
  case permuted =>
    intro args' hperm
    obtain ⟨numbers', hargs', hpermuted⟩ := List.perm_comp_forall₂ hperm hargs
    have hne' : args' ≠ [] := fun hnil => hne (List.perm_nil.mp (hnil ▸ hperm.symm))
    obtain ⟨result', hresult', trace', hevaluate'⟩ := exists_evaluate_extremum m hargs' hne'
    exact ⟨result', trace', hevaluate', hresult.beq (hresult'.perm hpermuted.symm) hnumber'⟩

/-- The double that is no number starts the fold, and two zeros differ in their sign. -/
theorem extremum_bounds_zeros :
    let c : Value := .object [("nan", .number Float.nan), ("zero", .number (-0))]
    let nan : Value := .object [("var", .string "nan")]
    let zero : Value := .object [("var", .string "zero")]
    let args : List Value := [nan, .number 0, zero]
    ∃ result result' trace trace',
      evaluate ((Operator.extremum .max).node args) c = .ok ⟨.number result, trace⟩ ∧
      evaluate ((Operator.extremum .max).node args.reverse) c = .ok ⟨.number result', trace'⟩ ∧
      0 ≤ result ∧ (result' == result) = true ∧ 
      ∃ r t, evaluate ((Operator.extremum .min).node [nan]) c = .ok ⟨.number r, t⟩ ∧ r.isNaN = true := by
  intro c nan zero args
  have hargs : Value.ComeToNumbers c args [Float.nan, 0, -0] :=
    .cons rfl (.cons rfl (.cons rfl .nil))
  have hnan : Value.ComeToNumbers c [nan] [Float.nan] := .cons rfl .nil
  obtain ⟨result, trace, hmax, hnumber, -⟩ := extremum_bounds .max hargs (List.cons_ne_nil _ _)
  obtain ⟨r, t, hmin, -, hnone⟩ := extremum_bounds .min hnan (List.cons_ne_nil _ _)
  obtain ⟨-, -, hbounds, hpermuted⟩ := hnumber ⟨0, by simp, rfl⟩
  obtain ⟨result', trace', hmax', hbeq⟩ := hpermuted args.reverse args.reverse_perm
  exact ⟨result, result', trace, trace', hmax, hmax', hbounds 0 (by simp) rfl, hbeq, r, t, hmin,
    hnone (List.forall_mem_singleton.mpr rfl)⟩

end DecisionRules
