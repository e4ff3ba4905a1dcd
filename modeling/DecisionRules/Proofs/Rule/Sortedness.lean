import DecisionRules.Proofs.Number.Order
import DecisionRules.Proofs.Rule.NumericOutcome

/-!
# Proofs/Rule/Sortedness — a chained comparison tells whether numbers are sorted

A comparison of several numbers looks at neighbours only.  As each of the four relations is
transitive, it holds between all neighbours just if it holds between any number and any later one
(`Rule.holdsAlong_iff_pairwise`).  That is a statement about pairs, so it can be read from the other
end with the converse relation, and a single double that is no number makes it false wherever it
stands.
-/

namespace DecisionRules

/-! ## The four relations -/

namespace Comparison

/-- The relation of doubles that a comparison asks about. -/
def Relates : Comparison → Float → Float → Prop
  | .greater, x, y => x > y
  | .greaterEqual, x, y => x ≥ y
  | .less, x, y => x < y
  | .lessEqual, x, y => x ≤ y

/-- The comparison that asks the same with the sides exchanged. -/
def converse : Comparison → Comparison
  | .greater => .less
  | .greaterEqual => .lessEqual
  | .less => .greater
  | .lessEqual => .greaterEqual

variable {k : Comparison} {x y z : Float}

theorem relates_converse (k : Comparison) (x y : Float) :
    k.converse.Relates x y ↔ k.Relates y x := by
  cases k <;> exact Iff.rfl

theorem Relates.trans (h : k.Relates x y) (h' : k.Relates y z) : k.Relates x z := by
  cases k with
  | greater => exact Binary64.lt_trans h' h
  | greaterEqual => exact Binary64.le_trans h' h
  | less => exact Binary64.lt_trans h h'
  | lessEqual => exact Binary64.le_trans h h'

/-- Only numbers stand in a relation. -/
theorem Relates.isNaN_eq_false (h : k.Relates x y) : x.isNaN = false ∧ y.isNaN = false := by
  have hle : x ≤ y ∨ y ≤ x := by
    cases k with
    | greater => exact .inr (Binary64.le_of_lt h)
    | greaterEqual => exact .inr h
    | less => exact .inl (Binary64.le_of_lt h)
    | lessEqual => exact .inl h
  exact hle.elim Binary64.isNaN_eq_false_of_le fun hge => (Binary64.isNaN_eq_false_of_le hge).symm

instance : IsTrans Float k.Relates := ⟨fun _ _ _ => Relates.trans⟩

end Comparison

namespace Rule

/-! ## All pairs -/

section Along

variable {k : Comparison} {numbers : List Float}

theorem holds_iff {x y : Float} : holds k x y = true ↔ k.Relates x y := by
  cases k <;> exact decide_eq_true_iff

theorem holdsAlong_iff_isChain : holdsAlong (holds k) numbers = true ↔
    numbers.IsChain k.Relates := by
  induction numbers with
  | nil => simp [holdsAlong]
  | cons x rest ih =>
    obtain _ | ⟨y, rest⟩ := rest
    · simp [holdsAlong]
    · rw [holdsAlong, Bool.and_eq_true, ih, List.isChain_cons_cons, holds_iff]

/-- **What holds between neighbours holds between all**, in their order. -/
theorem holdsAlong_iff_pairwise :
    holdsAlong (holds k) numbers = true ↔ numbers.Pairwise k.Relates :=
  holdsAlong_iff_isChain.trans List.isChain_iff_pairwise

/-- **From the other end the converse holds.** -/
theorem holdsAlong_reverse :
    holdsAlong (holds k.converse) numbers.reverse = holdsAlong (holds k) numbers := by
  rw [Bool.eq_iff_iff, holdsAlong_iff_pairwise, holdsAlong_iff_pairwise, List.pairwise_reverse]
  simp only [Comparison.relates_converse]

/-- **Of several doubles in order each is a number.** -/
theorem forall_isNaN_of_holdsAlong (hlength : 2 ≤ numbers.length)
    (h : holdsAlong (holds k) numbers = true) : ∀ x ∈ numbers, x.isNaN = false := by
  obtain _ | ⟨x, _ | ⟨y, rest⟩⟩ := numbers
  · exact absurd hlength (Nat.not_succ_le_zero 1)
  · exact absurd hlength (Nat.not_succ_le_self 1)
  obtain ⟨hfirst, -⟩ := List.pairwise_cons.mp (holdsAlong_iff_pairwise.mp h)
  have hx : x.isNaN = false := (hfirst y List.mem_cons_self).isNaN_eq_false.1
  exact List.forall_mem_cons.mpr ⟨hx, fun z hz => (hfirst z hz).isNaN_eq_false.2⟩

end Along

/-- **A comparison of at least two numbers has a value.** -/
theorem exists_evaluate_compare {c : Value} {args : List Value} {numbers : List Float}
    (k : Comparison) (hargs : Value.ComeToNumbers c args numbers) (hlength : 2 ≤ args.length) :
    ∃ trace, evaluate ((Operator.compare k).node args) c =
      .ok ⟨.bool (holdsAlong (holds k) numbers), trace⟩ := by
  have hfew : ¬ numbers.length < 2 :=
    Nat.not_lt.mpr (hlength.trans_eq (List.Forall₂.length_eq hargs))
  exact Operator.exists_evaluate_of_comeToNumbers rfl hargs (if_neg hfew)

end Rule

open Rule

/-- **A chained comparison tells whether the numbers are sorted.**  Let at least two arguments all
come to numbers.  Then each of the four comparisons succeeds.  It is true just if its relation holds
between every number and every later one; it is false if one of them is not a number; and the
converse comparison of the arguments in the opposite order gives the same answer. -/
theorem comparison_sorted {c : Value} {args : List Value} {numbers : List Float}
    (hargs : Value.ComeToNumbers c args numbers) (hlength : 2 ≤ args.length) :
    ∃ answer : Comparison → Bool,
      (∀ k, ∃ trace, evaluate ((Operator.compare k).node args) c = .ok ⟨.bool (answer k), trace⟩) ∧
      (∀ k, answer k = true ↔ numbers.Pairwise k.Relates) ∧
      ((∃ x ∈ numbers, x.isNaN = true) → ∀ k, answer k = false) ∧
      ∀ k, ∃ trace, evaluate ((Operator.compare k.converse).node args.reverse) c =
        .ok ⟨.bool (answer k), trace⟩ := by
  have hnumbers : 2 ≤ numbers.length := hlength.trans_eq (List.Forall₂.length_eq hargs)
  have hreverse : Value.ComeToNumbers c args.reverse numbers.reverse :=
    List.forall₂_reverse_iff.mpr hargs
  refine ⟨fun k => holdsAlong (holds k) numbers, fun k => exists_evaluate_compare k hargs hlength,
    fun k => holdsAlong_iff_pairwise, ?notANumber, ?reversed⟩
  case notANumber =>
    rintro ⟨x, hx, hnan⟩ k
    rw [Bool.eq_false_iff]
    intro hsorted
    exact absurd hnan (Bool.eq_false_iff.mp (forall_isNaN_of_holdsAlong hnumbers hsorted x hx))
  case reversed =>
    intro k
    simpa only [holdsAlong_reverse] using
      exists_evaluate_compare k.converse hreverse (hlength.trans_eq args.length_reverse.symm)

/-- A zero of either sign may come first, and the list may be read from the other end; a double that
is no number breaks the order of its neighbours. -/
theorem comparison_sorted_zeros :
    let c : Value := .object [("zero", .number (-0)), ("nan", .number Float.nan)]
    let zero : Value := .object [("var", .string "zero")]
    let nan : Value := .object [("var", .string "nan")]
    (∃ trace, evaluate ((Operator.compare .lessEqual).node [.number 0, zero, .number 1]) c =
        .ok ⟨.bool true, trace⟩) ∧
      (∃ trace, evaluate ((Operator.compare .greaterEqual).node [.number 1, zero, .number 0]) c =
        .ok ⟨.bool true, trace⟩) ∧
      ∃ trace, evaluate ((Operator.compare .less).node [.number 0, nan, .number 1]) c =
        .ok ⟨.bool false, trace⟩ := by
  intro c zero nan
  have hzeros : Value.ComeToNumbers c [.number 0, zero, .number 1] [0, -0, 1] :=
    .cons rfl (.cons rfl (.cons rfl .nil))
  have hbroken : Value.ComeToNumbers c [.number 0, nan, .number 1] [0, Float.nan, 1] :=
    .cons rfl (.cons rfl (.cons rfl .nil))
  obtain ⟨answer, hruns, hpairs, -, hreversed⟩ := comparison_sorted hzeros (by decide)
  obtain ⟨answer', hruns', -, hnan, -⟩ := comparison_sorted hbroken (by decide)
  have hpairwise : [0, -0, (1 : Float)].Pairwise (· ≤ ·) := by decide
  have hsorted : answer .lessEqual = true := (hpairs .lessEqual).mpr hpairwise
  have hunsorted : answer' .less = false := hnan ⟨Float.nan, by simp, rfl⟩ .less
  exact ⟨hsorted ▸ hruns .lessEqual, hsorted ▸ hreversed .lessEqual, hunsorted ▸ hruns' .less⟩

end DecisionRules
