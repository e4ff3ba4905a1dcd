import DecisionRules.Number.Binary64
import Mathlib

/-!
# Proofs/Number/Rounding — rounding sees the quotient alone and leaves doubles alone

`nearest` is given a numerator and a denominator, and picks its grid from their lengths in binary.
The grid is nevertheless a function of the quotient — it is the binary logarithm, cut off at the
finest grid (`gridExponent_eq_log`) — so equal quotients round to the same double
(`nearest_congr`), and whoever rounds a decimal may expand or reduce it first.

A finite double is its own nearest double (`nearest_magnitude`): on its grid it is an integer, and
the bits are put together again from the fields they were taken from.
-/

namespace DecisionRules.Binary64

/-! ## The grid of a quotient -/

/-- A power of two taken apart into what goes into the numerator and what into the denominator. -/
theorem two_zpow_mul_pow (e : ℤ) : (2 : ℚ) ^ e * 2 ^ (-e).toNat = 2 ^ e.toNat := by
  obtain ⟨n, rfl | rfl⟩ := e.eq_nat_or_neg
  · simp
  · simp

/-- Comparing a scaled quotient with a natural is comparing the quotient with the grid. -/
theorem le_scale_iff {num den : ℕ} (hden : den ≠ 0) (a : ℕ) (e : ℤ) :
    a * (scale num den e).2 ≤ (scale num den e).1 ↔ (a : ℚ) * 2 ^ e ≤ (num : ℚ) / den := by
  have hden' : (0 : ℚ) < den := by positivity
  have hpow : (0 : ℚ) < 2 ^ (-e).toNat := by positivity
  rw [le_div_iff₀ hden', ← mul_le_mul_iff_left₀ hpow, ← Nat.cast_le (α := ℚ)]
  simp only [scale, Nat.pow_eq, Nat.cast_mul, Nat.cast_pow, Nat.cast_ofNat, ← two_zpow_mul_pow e]
  ring_nf

section Lengths

variable {num den : ℕ}

/-- The lengths of numerator and denominator give the logarithm of the quotient up to one. -/
theorem le_log_quotient (hnum : num ≠ 0) (hden : den ≠ 0) :
    (num.log2 : ℤ) - den.log2 - 1 ≤ Int.log 2 ((num : ℚ) / den) := by
  have hpos : (0 : ℚ) < (num : ℚ) / den := by positivity
  have hnumLow : (2 : ℚ) ^ num.log2 ≤ num := by exact_mod_cast Nat.log2_self_le hnum
  have hdenHigh : (den : ℚ) < 2 ^ (den.log2 + 1) := by exact_mod_cast Nat.lt_log2_self
  rw [← Int.zpow_le_iff_le_log Nat.one_lt_two hpos, le_div_iff₀ (by positivity)]
  calc (2 : ℚ) ^ ((num.log2 : ℤ) - den.log2 - 1) * den
      ≤ 2 ^ ((num.log2 : ℤ) - den.log2 - 1) * 2 ^ ((den.log2 : ℤ) + 1) := by
        gcongr
        exact_mod_cast hdenHigh.le
    _ = 2 ^ num.log2 := by
        rw [← zpow_add₀ two_ne_zero, ← zpow_natCast]
        ring_nf
    _ ≤ num := hnumLow

theorem log_quotient_lt (hnum : num ≠ 0) (hden : den ≠ 0) :
    Int.log 2 ((num : ℚ) / den) < (num.log2 : ℤ) - den.log2 + 1 := by
  have hpos : (0 : ℚ) < (num : ℚ) / den := by positivity
  have hnumHigh : (num : ℚ) < 2 ^ (num.log2 + 1) := by exact_mod_cast Nat.lt_log2_self
  have hdenLow : (2 : ℚ) ^ den.log2 ≤ den := by exact_mod_cast Nat.log2_self_le hden
  rw [← Int.lt_zpow_iff_log_lt Nat.one_lt_two hpos, div_lt_iff₀ (by positivity)]
  calc (num : ℚ) < 2 ^ (num.log2 + 1) := hnumHigh
    _ = 2 ^ ((num.log2 : ℤ) - den.log2 + 1) * 2 ^ den.log2 := by
        rw [← zpow_natCast, ← zpow_natCast, ← zpow_add₀ two_ne_zero]
        push_cast
        ring_nf
    _ ≤ 2 ^ ((num.log2 : ℤ) - den.log2 + 1) * den := by gcongr

/-- The lower guess for the grid leaves room for one more digit just when the quotient is as long as
the two lengths say. -/
theorem fits_iff (hnum : num ≠ 0) (hden : den ≠ 0) :
    Nat.pow 2 53 * (scale num den ((num.log2 : ℤ) - den.log2 - 53)).2 ≤
        (scale num den ((num.log2 : ℤ) - den.log2 - 53)).1 ↔
      (num.log2 : ℤ) - den.log2 ≤ Int.log 2 ((num : ℚ) / den) := by
  have hpos : (0 : ℚ) < (num : ℚ) / den := by positivity
  have hgrid : ((2 ^ 53 : ℕ) : ℚ) * 2 ^ ((num.log2 : ℤ) - den.log2 - 53) =
      2 ^ ((num.log2 : ℤ) - den.log2) := by
    rw [Nat.cast_pow, Nat.cast_ofNat, ← zpow_natCast, ← zpow_add₀ two_ne_zero]
    ring_nf
  rw [Nat.pow_eq, le_scale_iff hden, hgrid, ← Int.zpow_le_iff_le_log Nat.one_lt_two hpos,
    Nat.cast_ofNat]

/-- **The grid is fifty-two binary places below the leading digit of the quotient**, or the finest
one. -/
theorem gridExponent_eq_log (hnum : num ≠ 0) (hden : den ≠ 0) :
    gridExponent num den = max (Int.log 2 ((num : ℚ) / den) - 52) finestExponent := by
  have hlow := le_log_quotient hnum hden
  have hhigh := log_quotient_lt hnum hden
  simp only [gridExponent, fits_iff hnum hden]
  split <;> omega

end Lengths

/-! ## Equal quotients -/

theorem roundHalfEven_mul_right (num den : ℕ) {c : ℕ} (hc : 0 < c) :
    roundHalfEven (num * c) (den * c) = roundHalfEven num den := by
  have hless : 2 * (num % den * c) < den * c ↔ 2 * (num % den) < den := by
    rw [← Nat.mul_assoc, Nat.mul_lt_mul_right hc]
  have hhalf : 2 * (num % den * c) = den * c ↔ 2 * (num % den) = den := by
    rw [← Nat.mul_assoc, Nat.mul_left_inj hc.ne']
  simp only [roundHalfEven, Nat.mul_div_mul_right _ _ hc, Nat.mul_mod_mul_right, hless, hhalf]

theorem roundHalfEven_mul_self (n : ℕ) {d : ℕ} (hd : 0 < d) : roundHalfEven (n * d) d = n := by
  simp [roundHalfEven, Nat.mul_div_cancel _ hd, hd]

theorem nearestBits_mul_right {num den c : ℕ} (hden : den ≠ 0) (hc : c ≠ 0) :
    nearestBits (num * c) (den * c) = nearestBits num den := by
  by_cases hnum : num = 0
  · simp [nearestBits, hnum]
  have hquotient : ((num * c : ℕ) : ℚ) / (den * c : ℕ) = (num : ℚ) / den := by
    push_cast
    exact mul_div_mul_right _ _ (by exact_mod_cast hc)
  have hgrid : gridExponent (num * c) (den * c) = gridExponent num den := by
    rw [gridExponent_eq_log (Nat.mul_ne_zero hnum hc) (Nat.mul_ne_zero hden hc), hquotient,
      gridExponent_eq_log hnum hden]
  simp only [nearestBits, hnum, Nat.mul_ne_zero hnum hc, if_false, hgrid, scale,
    Nat.mul_right_comm _ c, roundHalfEven_mul_right _ _ (Nat.pos_of_ne_zero hc)]

/-- **Equal quotients round to the same double.** -/
theorem nearest_congr (negative : Bool) {num den num' den' : ℕ} (hden : den ≠ 0) (hden' : den' ≠ 0)
    (h : num * den' = num' * den) : nearest negative num den = nearest negative num' den' := by
  have hbits : nearestBits num den = nearestBits num' den' := by
    rw [← nearestBits_mul_right hden hden', h, Nat.mul_comm den, nearestBits_mul_right hden' hden]
  rw [nearest, nearest, hbits]

/-! ## The magnitude of a double -/

namespace Magnitude

/-- A significand on a grid as a double has them: at most fifty-three binary digits, and no fewer
unless the grid is the finest one. -/
structure Fits (m : Magnitude) : Prop where
  lt : m.significand < 2 * fractionCount
  finest_le : finestExponent ≤ m.exponent
  normal : m.exponent ≠ finestExponent → fractionCount ≤ m.significand

theorem den_ne_zero (m : Magnitude) : m.den ≠ 0 := (Nat.pow_pos (by decide)).ne'

theorem num_ne_zero {m : Magnitude} (hm : 0 < m.significand) : m.num ≠ 0 :=
  (Nat.mul_pos hm (Nat.pow_pos (by decide))).ne'

theorem num_div_den (m : Magnitude) :
    (m.num : ℚ) / m.den = m.significand * 2 ^ m.exponent := by
  have hden : (m.den : ℚ) ≠ 0 := by exact_mod_cast m.den_ne_zero
  rw [div_eq_iff hden]
  simp only [num, den, Nat.pow_eq, Nat.cast_mul, Nat.cast_pow, Nat.cast_ofNat, mul_assoc,
    two_zpow_mul_pow]

/-- The quotient of a magnitude is rounded on the grid it came from. -/
theorem Fits.gridExponent_eq {m : Magnitude} (h : m.Fits) (hpos : 0 < m.significand) :
    gridExponent m.num m.den = m.exponent := by
  have hgrid : (0 : ℚ) < 2 ^ m.exponent := by positivity
  have hvalue : (0 : ℚ) < m.significand * 2 ^ m.exponent := by positivity
  have hhigh : Int.log 2 ((m.significand : ℚ) * 2 ^ m.exponent) < m.exponent + 53 := by
    rw [← Int.lt_zpow_iff_log_lt Nat.one_lt_two hvalue, add_comm, Nat.cast_ofNat,
      zpow_add₀ two_ne_zero, mul_lt_mul_iff_left₀ hgrid]
    exact_mod_cast h.lt
  have hlow : m.exponent ≠ finestExponent →
      m.exponent + 52 ≤ Int.log 2 ((m.significand : ℚ) * 2 ^ m.exponent) := by
    intro hne
    rw [← Int.zpow_le_iff_le_log Nat.one_lt_two hvalue, add_comm, Nat.cast_ofNat,
      zpow_add₀ two_ne_zero, mul_le_mul_iff_left₀ hgrid]
    exact_mod_cast h.normal hne
  have hfinest := h.finest_le
  rw [gridExponent_eq_log (num_ne_zero hpos) m.den_ne_zero, num_div_den]
  omega

/-- On its own grid a magnitude is an integer. -/
theorem roundHalfEven_scale (m : Magnitude) :
    roundHalfEven (scale m.num m.den m.exponent).1 (scale m.num m.den m.exponent).2 =
      m.significand := by
  have hpow : 0 < m.den * Nat.pow 2 m.exponent.toNat :=
    Nat.mul_pos (Nat.pos_of_ne_zero m.den_ne_zero) (Nat.pow_pos (by decide))
  have hscaled : m.num * Nat.pow 2 (-m.exponent).toNat =
      m.significand * (m.den * Nat.pow 2 m.exponent.toNat) := by
    rw [num, den, Nat.mul_assoc, Nat.mul_comm (Nat.pow 2 m.exponent.toNat)]
  rw [scale, hscaled, roundHalfEven_mul_self _ hpow]

/-- So its bits are its significand, behind the number of its grid. -/
theorem Fits.nearestBits_eq {m : Magnitude} (h : m.Fits) :
    nearestBits m.num m.den =
      min ((m.exponent - finestExponent).toNat * fractionCount + m.significand)
        (topExponent * fractionCount) := by
  rcases Nat.eq_zero_or_pos m.significand with hzero | hpos
  · have hfinest : m.exponent = finestExponent := by
      by_contra hne
      have := h.normal hne
      simp [hzero, fractionCount] at this
    simp [nearestBits, num, hzero, hfinest]
  · simp only [nearestBits, if_neg (num_ne_zero hpos), h.gridExponent_eq hpos, roundHalfEven_scale]

end Magnitude

/-! ## The fields of a double -/

/-- The three fields are all there is to the bits. -/
theorem toNat_toBits_eq_fields (x : Float) :
    x.toBits.toNat = (if isNegative x then signWeight else 0) +
      (exponentField x * fractionCount + fractionField x) := by
  have hlt : x.toBits.toNat < 2 ^ 64 := x.toBits.toNat_lt
  have hsign : isNegative x = true ↔ signWeight ≤ x.toBits.toNat := decide_eq_true_iff
  have hsplit := Nat.div_add_mod x.toBits.toNat fractionCount
  have hfraction : x.toBits.toNat % fractionCount < fractionCount :=
    Nat.mod_lt _ (Nat.pow_pos (by decide))
  rw [if_congr hsign rfl rfl, exponentField, fractionField]
  generalize x.toBits.toNat / fractionCount = whole at *
  generalize x.toBits.toNat % fractionCount = fraction at *
  split <;> simp only [signWeight, fractionCount, Nat.pow_eq] at * <;> omega

theorem fractionField_lt (x : Float) : fractionField x < fractionCount :=
  Nat.mod_lt _ (Nat.pow_pos (by decide))

theorem exponentField_lt {x : Float} (hx : isFinite x = true) : exponentField x < topExponent := by
  have hlt : exponentField x < Nat.pow 2 11 := Nat.mod_lt _ (Nat.pow_pos (by decide))
  have hne : exponentField x ≠ topExponent := by simpa [isFinite] using hx
  simp only [topExponent, Nat.pow_eq] at *
  omega

theorem magnitude_fits (x : Float) : (magnitude x).Fits := by
  have hfraction := fractionField_lt x
  rw [magnitude]
  split
  case isTrue => exact ⟨by dsimp only; omega, le_rfl, fun h => absurd rfl h⟩
  case isFalse hfield =>
    refine ⟨by dsimp only; omega, ?_, fun _ => Nat.le_add_right _ _⟩
    simp only [finestExponent]
    omega

/-- **A finite double is the one nearest to its own magnitude.** -/
theorem nearest_magnitude {x : Float} (hx : isFinite x = true) :
    nearest (isNegative x) (magnitude x).num (magnitude x).den = x := by
  have hfraction := fractionField_lt x
  have htop := exponentField_lt hx
  have hbits : nearestBits (magnitude x).num (magnitude x).den =
      exponentField x * fractionCount + fractionField x := by
    rw [(magnitude_fits x).nearestBits_eq, magnitude]
    simp only [finestExponent, topExponent, fractionCount, Nat.pow_eq] at *
    split <;> dsimp only <;> omega
  rw [nearest, hbits, ← toNat_toBits_eq_fields, UInt64.ofNat_toNat, Float.ofBits_toBits]

/-! ## Doubles that are integers -/

/-- An integral double is a natural with a sign. -/
theorem exists_of_toInt? {x : Float} {n : ℤ} (h : toInt? x = some n) :
    ∃ q : ℕ, nearest (isNegative x) q 1 = x ∧ n = if isNegative x then -(q : ℤ) else q := by
  have hcases : isFinite x = true ∧ (magnitude x).num % (magnitude x).den = 0 ∧
      (if isNegative x then -(((magnitude x).num / (magnitude x).den : ℕ) : ℤ)
        else ((magnitude x).num / (magnitude x).den : ℕ)) = n := by
    simpa [toInt?, and_assoc] using h
  obtain ⟨hx, hwhole, hn⟩ := hcases
  have hquotient : (magnitude x).num / (magnitude x).den * (magnitude x).den =
      (magnitude x).num * 1 := by
    rw [Nat.div_mul_cancel (Nat.dvd_of_mod_eq_zero hwhole), mul_one]
  refine ⟨(magnitude x).num / (magnitude x).den, ?_, hn.symm⟩
  rw [nearest_congr _ one_ne_zero (Magnitude.den_ne_zero _) hquotient, nearest_magnitude hx]

/-- **An integral double is the double nearest to the integer it is**, except that the integer zero
has no sign and leaves minus zero behind. -/
theorem ofInt_of_toInt? {x : Float} {n : ℤ} (h : toInt? x = some n) :
    ofInt n = x ∨ n = 0 ∧ x = nearest true 0 1 := by
  obtain ⟨q, hself, rfl⟩ := exists_of_toInt? h
  cases hsign : isNegative x with
  | false =>
    rw [hsign] at hself
    have hnonneg : ¬ (q : ℤ) < 0 := by omega
    exact .inl (by simp [ofInt, hnonneg, hself])
  | true =>
    rw [hsign] at hself
    rcases Nat.eq_zero_or_pos q with rfl | hq
    · exact .inr ⟨rfl, hself.symm⟩
    · exact .inl (by simp [ofInt, hq, hself])

/-! ## What is not a number

Of the bit patterns that are not numbers the type of doubles keeps one. All others are what some
double is made of, infinity being the last that rounding reaches. -/

/-- Bits come back from the double they make, unless they spell what is not a number. -/
theorem toBits_ofBits {b : UInt64} (h : b.toNat % signWeight ≤ topExponent * fractionCount) :
    (Float.ofBits b).toBits = b := by
  have hvalid : Float.Model.Format.binary64.Valid b.toBitVec := by
    refine ⟨fun hexponent hmantissa => absurd ?_ hmantissa⟩
    have htop : b.toNat / 2 ^ 52 % 2048 = 2047 := by
      simpa [Float.Model.UnpackedFloat.unpackExponent, Nat.shiftRight_eq_div_pow]
        using congrArg BitVec.toNat hexponent
    have hzero : b.toNat % 2 ^ 52 = 0 := by
      simp only [signWeight, topExponent, fractionCount, Nat.pow_eq] at h
      omega
    apply BitVec.eq_of_toNat_eq
    simpa [Float.Model.UnpackedFloat.unpackMantissa] using hzero
  have hback : Float.ofBits b = ⟨⟨b, hvalid⟩⟩ := Float.ofBits_toBits ⟨⟨b, hvalid⟩⟩
  rw [hback]
  rfl

theorem nearestBits_le (num den : ℕ) : nearestBits num den ≤ topExponent * fractionCount := by
  rw [nearestBits]
  split
  · exact Nat.zero_le _
  · exact min_le_right _ _

/-- The bits that rounding assembles are the bits of the double. -/
theorem toNat_toBits_nearest (negative : Bool) (num den : ℕ) :
    (nearest negative num den).toBits.toNat =
      (if negative then signWeight else 0) + nearestBits num den := by
  have hle := nearestBits_le num den
  rw [nearest, toBits_ofBits]
  all_goals
    rw [UInt64.toNat_ofNat']
    simp only [signWeight, topExponent, fractionCount, Nat.pow_eq] at *
    split <;> omega

/-- **Rounding gives a number.** -/
theorem nearest_ne_nan (negative : Bool) (num den : ℕ) : nearest negative num den ≠ Float.nan := by
  intro hnan
  have hle := nearestBits_le num den
  have hspelled := toNat_toBits_nearest negative num den
  have hspelling : Float.nan.toBits = 0x7ff8000000000000 := by decide +kernel
  rw [hnan, hspelling] at hspelled
  simp only [signWeight, topExponent, fractionCount, Nat.pow_eq, UInt64.reduceToNat] at *
  split at hspelled <;> omega

theorem ne_nan_of_isFinite {x : Float} (hx : isFinite x = true) : x ≠ Float.nan := by
  rintro rfl
  revert hx
  decide +kernel

end DecisionRules.Binary64
