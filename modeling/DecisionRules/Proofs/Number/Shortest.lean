import DecisionRules.Number.Decimal
import DecisionRules.Proofs.Number.Rounding

/-!
# Proofs/Number/Shortest — the shortest decimal of a double reads back as that double

`Decimal.shortest` searches coarse grids first and has the double written out in full to fall back
on. What the search finds has been read back before it is taken; the written-out decimal reads back
because it is the double (`nearest_exact`). So nothing has to be known about how far the search must
go, and the bound on its tries decides how short the decimal is, never whether it is right.
-/

namespace DecisionRules.Decimal

open Binary64 (Magnitude magnitude isNegative isFinite)

/-! ## Decimals in the range of doubles -/

/-- **A decimal that is not far outside the range of doubles is rounded as a quotient.** -/
theorem nearest_eq_quotient (negative : Bool) {d : Decimal} (hdigits : d.digits ≠ 0)
    (hhigh : d.exponent ≤ farExponent) (hlow : -farExponent ≤ d.exponent + d.digits.log2 + 1) :
    d.nearest negative = Binary64.nearest negative (d.digits * 10 ^ d.exponent.toNat)
      (10 ^ (-d.exponent).toNat) := by
  simp only [nearest, if_neg hdigits, if_neg hhigh.not_gt, if_neg hlow.not_gt, Nat.pow_eq]

/-- A zero is a zero on every grid. -/
theorem nearest_of_digits_eq_zero (negative : Bool) {d : Decimal} (h : d.digits = 0) :
    d.nearest negative = Binary64.nearest negative 0 1 := if_pos h

/-- Zeros behind the last digit go into the exponent, one of them behind a point. -/
theorem nearest_shift (negative : Bool) (digits : ℕ) {n : ℕ} (hn : n ≤ 400) :
    nearest negative ⟨digits * 10 ^ (n + 1), -1⟩ = nearest negative ⟨digits, n⟩ := by
  by_cases hdigits : digits = 0
  · have hshifted : digits * 10 ^ (n + 1) = 0 := by rw [hdigits, Nat.zero_mul]
    rw [nearest_of_digits_eq_zero negative (d := ⟨digits, n⟩) hdigits,
      nearest_of_digits_eq_zero negative hshifted]
  · have hshifted : digits * 10 ^ (n + 1) ≠ 0 := by positivity
    rw [nearest_eq_quotient _ hshifted (by simp [farExponent]) (by simp [farExponent]),
      nearest_eq_quotient _ hdigits (by simp [farExponent]; omega) (by simp [farExponent]; omega)]
    refine Binary64.nearest_congr _ (by positivity) (by positivity) ?_
    simp [pow_succ, mul_assoc]

/-! ## The decimal written out -/

theorem digits_exact_ne_zero {m : Magnitude} (hm : 0 < m.significand) : (exact m).digits ≠ 0 :=
  Nat.mul_ne_zero (Magnitude.num_ne_zero hm) (Nat.pow_pos (by decide)).ne'

/-- Written out, a magnitude has digits enough not to be taken for zero. -/
theorem le_log2_digits_exact {m : Magnitude} (hm : 0 < m.significand) :
    2 * (-m.exponent).toNat ≤ (exact m).digits.log2 := by
  rw [Nat.le_log2 (digits_exact_ne_zero hm), pow_mul]
  calc (2 ^ 2) ^ (-m.exponent).toNat
      ≤ 5 ^ (-m.exponent).toNat := Nat.pow_le_pow_left (by decide) _
    _ ≤ (exact m).digits :=
        Nat.le_mul_of_pos_left _ (Nat.pos_of_ne_zero (Magnitude.num_ne_zero hm))

/-- **A magnitude written out in full is that magnitude.** -/
theorem nearest_exact (negative : Bool) {m : Magnitude} (hm : 0 < m.significand) :
    (exact m).nearest negative = Binary64.nearest negative m.num m.den := by
  have hlog := le_log2_digits_exact hm
  have hexponent : (exact m).exponent = min m.exponent 0 := rfl
  rw [nearest_eq_quotient _ (digits_exact_ne_zero hm) (by simp [farExponent, hexponent])
    (by simp only [farExponent, hexponent]; omega)]
  have hwhole : (min m.exponent 0).toNat = 0 := by omega
  have hplaces : (-min m.exponent 0).toNat = (-m.exponent).toNat := by omega
  have hpow : 5 ^ (-m.exponent).toNat * m.den = 10 ^ (-m.exponent).toNat :=
    (mul_pow 5 2 (-m.exponent).toNat).symm
  refine Binary64.nearest_congr _ (by positivity) m.den_ne_zero ?_
  rw [hexponent, hwhole, hplaces, exact, Nat.pow_eq, pow_zero, mul_one, mul_assoc, hpow]

/-! ## The search -/

theorem names_iff {x : Float} {d : Decimal} :
    names x d = true ↔ d.nearest (isNegative x) = x := by
  rw [names, beq_iff_eq, Float.toBits_inj]

/-- Whatever grid the search ends on, what it finds reads back. -/
theorem nearest_of_firstOnGrids {x : Float} {num den : ℕ} {d : Decimal} :
    ∀ (tries : ℕ) (k : ℤ), firstOnGrids x num den tries k = some d → d.nearest (isNegative x) = x
  | 0, _, h => absurd h (by simp [firstOnGrids])
  | tries + 1, k, h => by
    rw [firstOnGrids] at h
    split at h
    case h_1 found hfound =>
      obtain rfl : found = d := by simpa using h
      exact names_iff.mp (List.find?_some hfound)
    case h_2 => exact nearest_of_firstOnGrids tries (k - 1) h

/-- **The shortest decimal of a finite double reads back as that double**, sign included. -/
theorem nearest_shortest {x : Float} (hx : isFinite x = true) :
    (shortest x).nearest (isNegative x) = x := by
  rw [shortest]
  split
  case isTrue hzero =>
    rw [nearest_of_digits_eq_zero _ rfl]
    conv_rhs => rw [← Binary64.nearest_magnitude hx]
    exact Binary64.nearest_congr _ one_ne_zero (Magnitude.den_ne_zero _)
      (by simp [Magnitude.num, hzero])
  case isFalse hne =>
    cases hfound : firstOnGrids x (magnitude x).num (magnitude x).den 22
        (leadingExponent (magnitude x)) with
    | some d => exact nearest_of_firstOnGrids _ _ hfound
    | none =>
      rw [Option.getD_none, nearest_exact _ (Nat.pos_of_ne_zero hne), Binary64.nearest_magnitude hx]

/-- The digit zero is left to the double zero, which has no exponent. -/
theorem shortest_of_digits_eq_zero {x : Float} (hx : isFinite x = true)
    (h : (shortest x).digits = 0) : shortest x = ⟨0, 0⟩ := by
  have hzero : Binary64.nearest (isNegative x) 0 1 = x := by
    rw [← nearest_of_digits_eq_zero _ h, nearest_shortest hx]
  have hsignificand : (magnitude x).significand = 0 := by
    rw [← hzero]
    cases isNegative x <;> decide +kernel
  rw [shortest, if_pos hsignificand]

end DecisionRules.Decimal
