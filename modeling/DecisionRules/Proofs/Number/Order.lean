import DecisionRules.Proofs.Number.Rounding

/-!
# Proofs/Number/Order — doubles are ordered like the numbers they are

A double is a number, one of two infinities, or no number at all (`Binary64.value?`).  What compares
two doubles looks at signs, exponents and significands in turn and never computes a value.  Still it
finds what comparing the values would (`Binary64.compare_eq_some_iff`), because a significand has
all its digits unless it is on the finest grid: on a coarser grid everything is greater.

Every natural below `2 ^ 53` is the value of a double (`Binary64.value?_ofInt`), so a count of no
more things than that is compared as the number it is.
-/

namespace DecisionRules.Binary64

open Float.Model (UnpackedFloat Format)

/-! ## Magnitudes -/

namespace Magnitude

/-- The number that a magnitude is. -/
noncomputable def value (m : Magnitude) : ℝ := m.significand * 2 ^ m.exponent

variable {m n : Magnitude}

theorem value_pos (h : 0 < m.significand) : 0 < m.value := by
  rw [value]
  positivity

/-- On a coarser grid everything is greater. -/
theorem Fits.value_lt (hm : m.Fits) (hn : n.Fits) (h : m.exponent < n.exponent) :
    m.value < n.value := by
  have hfinest := hm.finest_le
  have hnormal : fractionCount ≤ n.significand := hn.normal (by omega)
  have hgrid : (2 : ℝ) ^ (m.exponent + 1) ≤ 2 ^ n.exponent :=
    zpow_le_zpow_right₀ one_le_two (by omega)
  calc m.value < (2 * fractionCount : ℕ) * 2 ^ m.exponent := by
        rw [value]
        gcongr
        exact hm.lt
    _ = fractionCount * 2 ^ (m.exponent + 1) := by
        rw [zpow_add_one₀ two_ne_zero]
        push_cast
        ring
    _ ≤ n.significand * 2 ^ n.exponent := by gcongr

/-- **Comparing exponents and then significands is comparing the numbers.** -/
theorem Fits.cmp_value (hm : m.Fits) (hn : n.Fits) :
    cmp m.value n.value =
      (compare m.exponent n.exponent).then (compare m.significand n.significand) := by
  obtain hlt | heq | hgt := lt_trichotomy m.exponent n.exponent
  · rw [compare_lt_iff_lt.mpr hlt, (cmp_eq_lt_iff _ _).mpr (hm.value_lt hn hlt)]
    rfl
  · have hmono : StrictMono fun k : ℕ => (k : ℝ) * 2 ^ n.exponent := by
      intro a b hab
      dsimp only
      gcongr
    rw [compare_eq_iff_eq.mpr heq, value, heq, ← cmp_eq_compare]
    exact hmono.cmp_map_eq _ _
  · rw [compare_gt_iff_gt.mpr hgt, (cmp_eq_gt_iff _ _).mpr (hn.value_lt hm hgt)]
    rfl

end Magnitude

/-! ## The parts of a double

Arithmetic and comparisons take a double apart into a sign, a significand and an exponent.  Those
are read off the fields of its bits. -/

/-- The sign of a double. -/
def sign (x : Float) : UnpackedFloat.Sign := if isNegative x then .negative else .positive

section Fields

variable (x : Float)

theorem toNat_unpackMantissa :
    (@UnpackedFloat.unpackMantissa .binary64 x.toBits.toBitVec).toNat =
      fractionField x := by
  simp [UnpackedFloat.unpackMantissa, fractionField, fractionCount]

theorem toNat_unpackExponent :
    (@UnpackedFloat.unpackExponent .binary64 x.toBits.toBitVec).toNat =
      exponentField x := by
  simp [UnpackedFloat.unpackExponent, exponentField, fractionCount, Nat.shiftRight_eq_div_pow]

theorem ofBitVec_unpackSign :
    UnpackedFloat.Sign.ofBitVec (@UnpackedFloat.unpackSign .binary64 x.toBits.toBitVec) =
      sign x := by
  have hlt : x.toBits.toNat < 2 ^ 64 := x.toBits.toNat_lt
  have hfield : (@UnpackedFloat.unpackSign .binary64 x.toBits.toBitVec).toNat =
      x.toBits.toNat / 2 ^ 63 % 2 := by
    simp [UnpackedFloat.unpackSign, Nat.shiftRight_eq_div_pow]
  have hpositive : @UnpackedFloat.unpackSign .binary64 x.toBits.toBitVec = 0#1 ↔
      ¬ isNegative x = true := by
    rw [← BitVec.toNat_inj, hfield, isNegative, decide_eq_true_eq, signWeight, Nat.pow_eq]
    change _ = 0 ↔ _
    omega
  rw [UnpackedFloat.Sign.ofBitVec, sign, if_congr hpositive rfl rfl, ite_not]

/-- The hidden leading bit of a significand. -/
theorem toNat_one_append (v : BitVec 52) : (1#1 ++ v).toNat = fractionCount + v.toNat := by
  rw [BitVec.toNat_append, ← Nat.shiftLeft_add_eq_or_of_lt v.isLt]
  rfl

/-- **A finite double comes apart into its sign and its magnitude.** -/
theorem unpack_eq : x.toModel.unpack =
    if exponentField x = topExponent then
      if fractionField x = 0 then .infinity (sign x) else .notANumber
    else if h : (magnitude x).significand = 0 then .zero (sign x)
    else .finite (sign x) (magnitude x).significand (magnitude x).exponent
      (Nat.pos_of_ne_zero h) := by
  have hunpack : x.toModel.unpack = UnpackedFloat.unpack .binary64 x.toBits.toBitVec := rfl
  have htop : @UnpackedFloat.unpackExponent .binary64 x.toBits.toBitVec = -1#_ ↔
      exponentField x = topExponent := by
    rw [← BitVec.toNat_inj, toNat_unpackExponent]
    rfl
  have hbottom : @UnpackedFloat.unpackExponent .binary64 x.toBits.toBitVec = 0#_ ↔
      exponentField x = 0 := by
    rw [← BitVec.toNat_inj, toNat_unpackExponent]
    rfl
  have hfraction : @UnpackedFloat.unpackMantissa .binary64 x.toBits.toBitVec = 0#_ ↔
      fractionField x = 0 := by
    rw [← BitVec.toNat_inj, toNat_unpackMantissa]
    rfl
  have hbias : (Format.binary64.exponentBias : ℤ) = 1023 := rfl
  have hcount : fractionCount ≠ 0 := (Nat.pow_pos Nat.two_pos).ne'
  simp only [hunpack, UnpackedFloat.unpack, htop, hbottom, hfraction, ofBitVec_unpackSign,
    toNat_unpackMantissa, toNat_one_append, toNat_unpackExponent, magnitude]
  by_cases hinfinite : exponentField x = topExponent
  · simp only [if_pos hinfinite]
  by_cases hsubnormal : exponentField x = 0
  · simp [hsubnormal, hbias, finestExponent]
  · simp [hinfinite, hsubnormal, hbias, hcount]

end Fields

/-! ## Values -/

/-- A number with a sign. -/
def signed : UnpackedFloat.Sign → ℝ → ℝ
  | .positive, r => r
  | .negative, r => -r

/-- The number that parts make, with the infinities at the ends; nothing for what is no number. -/
noncomputable def partsValue? : UnpackedFloat → Option EReal
  | .notANumber => none
  | .infinity .positive => some ⊤
  | .infinity .negative => some ⊥
  | .zero _ => some ((0 : ℝ) : EReal)
  | .finite s m e _ => some ((signed s (Magnitude.value ⟨m, e⟩) : ℝ) : EReal)

/-- **The number that a double is.** -/
noncomputable def value? (x : Float) : Option EReal := partsValue? x.toModel.unpack

theorem value?_of_isFinite {x : Float} (hx : isFinite x = true) :
    value? x = some ((signed (sign x) (magnitude x).value : ℝ) : EReal) := by
  have hfield : exponentField x ≠ topExponent := by simpa [isFinite] using hx
  rw [value?, unpack_eq, if_neg hfield]
  by_cases hzero : (magnitude x).significand = 0
  · have hvalue : (magnitude x).value = 0 := by rw [Magnitude.value, hzero, Nat.cast_zero, zero_mul]
    have hsigned : signed (sign x) 0 = 0 := by
      rcases sign x with _ | _
      · exact neg_zero
      · rfl
    rw [dif_pos hzero, hvalue, hsigned]
    rfl
  · rw [dif_neg hzero]
    rfl

/-! ## The order -/

/-- Parts that are on the grid of a double. -/
def Canonical : UnpackedFloat → Prop
  | .finite _ m e _ => Magnitude.Fits ⟨m, e⟩
  | _ => True

theorem canonical_unpack (x : Float) : Canonical x.toModel.unpack := by
  rw [unpack_eq]
  split
  · split <;> exact trivial
  · split
    · exact trivial
    · exact magnitude_fits x

section Compares

variable {s t : UnpackedFloat.Sign} {m n : ℕ} {e f : ℤ}

/-- Of finite doubles of one sign, exponents and significands decide, the other way round below
zero. -/
theorem compares_finite (hm : 0 < m) (hn : 0 < n) (hfits : Magnitude.Fits ⟨m, e⟩)
    (hfits' : Magnitude.Fits ⟨n, f⟩) : ∃ o,
      UnpackedFloat.compare (.finite s m e hm) (.finite t n f hn) = some o ∧
      o.Compares (signed s (Magnitude.value ⟨m, e⟩)) (signed t (Magnitude.value ⟨n, f⟩)) := by
  have hcmp := cmp_compares (Magnitude.value ⟨m, e⟩) (Magnitude.value ⟨n, f⟩)
  rw [hfits.cmp_value hfits'] at hcmp
  have hpos : 0 < Magnitude.value ⟨m, e⟩ := Magnitude.value_pos hm
  have hpos' : 0 < Magnitude.value ⟨n, f⟩ := Magnitude.value_pos hn
  rcases s with _ | _ <;> rcases t with _ | _
  · exact ⟨_, rfl, Ordering.compares_swap.mpr (strictMono_id.neg.compares.mpr hcmp)⟩
  · exact ⟨.lt, rfl, (neg_lt_zero.mpr hpos).trans hpos'⟩
  · exact ⟨.gt, rfl, (neg_lt_zero.mpr hpos').trans hpos⟩
  · exact ⟨_, rfl, hcmp⟩

/-- Zero stands between the signs. -/
theorem compares_zero (s : UnpackedFloat.Sign) (hn : 0 < n) : ∃ o,
    UnpackedFloat.compare (.zero s) (.finite t n f hn) = some o ∧
    UnpackedFloat.compare (.finite t n f hn) (.zero s) = some o.swap ∧
    o.Compares 0 (signed t (Magnitude.value ⟨n, f⟩)) := by
  have hpos : 0 < Magnitude.value ⟨n, f⟩ := Magnitude.value_pos hn
  rcases t with _ | _
  · exact ⟨.gt, rfl, rfl, neg_lt_zero.mpr hpos⟩
  · exact ⟨.lt, rfl, rfl, hpos⟩

/-- **Parts compare like the numbers they make.** -/
theorem compares_parts {u v : UnpackedFloat} (hu : Canonical u) (hv : Canonical v) {p q : EReal}
    (hp : partsValue? u = some p) (hq : partsValue? v = some q) :
    ∃ o, u.compare v = some o ∧ o.Compares p q := by
  rcases u with s | _ | s | ⟨s, m, e, hm⟩ <;> rcases v with t | _ | t | ⟨t, n, f, hn⟩
  case finite.finite =>
    obtain ⟨o, ho, hcompares⟩ := compares_finite (s := s) (t := t) hm hn hu hv
    cases hp
    cases hq
    exact ⟨o, ho, EReal.coe_strictMono.compares.mpr hcompares⟩
  case zero.finite =>
    obtain ⟨o, ho, -, hcompares⟩ := compares_zero (t := t) (f := f) s hn
    cases hp
    cases hq
    exact ⟨o, ho, EReal.coe_strictMono.compares.mpr hcompares⟩
  case finite.zero =>
    obtain ⟨o, -, ho, hcompares⟩ := compares_zero (t := s) (f := e) t hm
    cases hp
    cases hq
    exact ⟨o.swap, ho, Ordering.compares_swap.mpr (EReal.coe_strictMono.compares.mpr hcompares)⟩
  -- What is left has an infinity on one side, or two zeros.
  all_goals
    (try rcases s with _ | _) <;> (try rcases t with _ | _) <;> cases hp <;> cases hq
  all_goals
    refine ⟨_, rfl, ?_⟩
    first
      | exact rfl
      | exact EReal.bot_lt_coe _
      | exact EReal.coe_lt_top _
      | exact (bot_lt_top : (⊥ : EReal) < ⊤)

end Compares

/-- **All parts make a number**, but for those of what is none. -/
theorem exists_partsValue?_iff {u : UnpackedFloat} :
    (∃ p, partsValue? u = some p) ↔ u.isNaN = false := by
  rcases u with s | _ | s | _
  · rcases s with _ | _ <;> exact iff_of_true ⟨_, rfl⟩ rfl
  · exact iff_of_false (not_exists.mpr fun p => (Option.some_ne_none p).symm) Bool.noConfusion
  · exact iff_of_true ⟨_, rfl⟩ rfl
  · exact iff_of_true ⟨_, rfl⟩ rfl

/-- What makes no number compares with nothing. -/
theorem exists_partsValue? {u v : UnpackedFloat} {o : Ordering} (h : u.compare v = some o) :
    ∃ p q, partsValue? u = some p ∧ partsValue? v = some q := by
  have hvalue {w : UnpackedFloat} (hw : w ≠ .notANumber) : ∃ r, partsValue? w = some r := by
    refine exists_partsValue?_iff.mpr ?_
    rcases w with _ | _ | _ | _
    case notANumber => exact absurd rfl hw
    all_goals rfl
  have hu : u ≠ .notANumber := by
    rintro rfl
    cases h
  have hv : v ≠ .notANumber := by
    rintro rfl
    rcases u with s | _ | _ | _
    case infinity => rcases s with _ | _ <;> cases h
    all_goals cases h
  obtain ⟨p, hp⟩ := hvalue hu
  obtain ⟨q, hq⟩ := hvalue hv
  exact ⟨p, q, hp, hq⟩

/-- **Doubles compare like the numbers they are.** -/
theorem compare_eq_some_iff {x y : Float} {o : Ordering} :
    x.toModel.unpack.compare y.toModel.unpack = some o ↔
      ∃ p q, value? x = some p ∧ value? y = some q ∧ o.Compares p q := by
  constructor
  · intro h
    obtain ⟨p, q, hp, hq⟩ := exists_partsValue? h
    obtain ⟨o', ho', hcompares⟩ := compares_parts (canonical_unpack x) (canonical_unpack y) hp hq
    obtain rfl : o' = o := Option.some.inj (ho'.symm.trans h)
    exact ⟨p, q, hp, hq, hcompares⟩
  · rintro ⟨p, q, hp, hq, hcompares⟩
    obtain ⟨o', ho', hcompares'⟩ := compares_parts (canonical_unpack x) (canonical_unpack y) hp hq
    rw [ho', hcompares'.inj hcompares]

theorem lt_iff {x y : Float} :
    x < y ↔ ∃ p q, value? x = some p ∧ value? y = some q ∧ p < q := by
  have hlt : x < y ↔ (x.toModel.unpack.compare y.toModel.unpack == some .lt) = true :=
    decide_eq_true_iff
  rw [hlt, beq_iff_eq, compare_eq_some_iff]
  rfl

/-- **Doubles are equal if they are the same number**; what is no number equals nothing. -/
theorem beq_iff {x y : Float} : (x == y) = true ↔ ∃ r, value? x = some r ∧ value? y = some r := by
  have hbeq : (x == y) = (x.toModel.unpack.compare y.toModel.unpack == some .eq) := rfl
  rw [hbeq, beq_iff_eq, compare_eq_some_iff]
  constructor
  · rintro ⟨r, q, hr, hq, hcompares⟩
    obtain rfl : r = q := hcompares
    exact ⟨r, hr, hq⟩
  · rintro ⟨r, hr, hr'⟩
    exact ⟨r, r, hr, hr', rfl⟩

/-! ### Laws

Away from what is no number the order is linear, up to the sign of a zero. -/

section Laws

variable {x y z : Float}

theorem le_iff : x ≤ y ↔ ∃ p q, value? x = some p ∧ value? y = some q ∧ p ≤ q := by
  have hle : x ≤ y ↔ (x.toModel.unpack.compare y.toModel.unpack).any (·.isLE) = true :=
    decide_eq_true_iff
  rw [hle, Option.any_eq_true]
  constructor
  · rintro ⟨o, ho, hisLE⟩
    obtain ⟨p, q, hp, hq, hcompares⟩ := compare_eq_some_iff.mp ho
    exact ⟨p, q, hp, hq, hcompares.ne_gt.mp (Ordering.isLE_iff_ne_gt.mp hisLE)⟩
  · rintro ⟨p, q, hp, hq, hpq⟩
    have hcompares : (cmp p q).Compares p q := cmp_compares p q
    exact ⟨cmp p q, compare_eq_some_iff.mpr ⟨p, q, hp, hq, hcompares⟩,
      Ordering.isLE_iff_ne_gt.mpr (hcompares.ne_gt.mpr hpq)⟩

theorem isNaN_eq_false_iff : x.isNaN = false ↔ ∃ p, value? x = some p :=
  exists_partsValue?_iff.symm

theorem lt_trans (h : x < y) (h' : y < z) : x < z := by
  obtain ⟨p, q, hp, hq, hpq⟩ := lt_iff.mp h
  obtain ⟨q', r, hq', hr, hqr⟩ := lt_iff.mp h'
  obtain rfl : q = q' := Option.some.inj (hq.symm.trans hq')
  exact lt_iff.mpr ⟨p, r, hp, hr, hpq.trans hqr⟩

theorem le_trans (h : x ≤ y) (h' : y ≤ z) : x ≤ z := by
  obtain ⟨p, q, hp, hq, hpq⟩ := le_iff.mp h
  obtain ⟨q', r, hq', hr, hqr⟩ := le_iff.mp h'
  obtain rfl : q = q' := Option.some.inj (hq.symm.trans hq')
  exact le_iff.mpr ⟨p, r, hp, hr, hpq.trans hqr⟩

theorem le_of_lt (h : x < y) : x ≤ y := by
  obtain ⟨p, q, hp, hq, hpq⟩ := lt_iff.mp h
  exact le_iff.mpr ⟨p, q, hp, hq, hpq.le⟩

/-- What is compared is a number. -/
theorem isNaN_eq_false_of_le (h : x ≤ y) : x.isNaN = false ∧ y.isNaN = false := by
  obtain ⟨p, q, hp, hq, -⟩ := le_iff.mp h
  exact ⟨isNaN_eq_false_iff.mpr ⟨p, hp⟩, isNaN_eq_false_iff.mpr ⟨q, hq⟩⟩

theorem le_refl (hx : x.isNaN = false) : x ≤ x := by
  obtain ⟨p, hp⟩ := isNaN_eq_false_iff.mp hx
  exact le_iff.mpr ⟨p, p, hp, hp, le_rfl⟩

/-- **Two numbers are in order** one way round or the other. -/
theorem le_of_not_lt (hx : x.isNaN = false) (hy : y.isNaN = false) (h : ¬ x < y) : y ≤ x := by
  obtain ⟨p, hp⟩ := isNaN_eq_false_iff.mp hx
  obtain ⟨q, hq⟩ := isNaN_eq_false_iff.mp hy
  exact le_iff.mpr ⟨q, p, hq, hp, not_lt.mp fun hpq => h (lt_iff.mpr ⟨p, q, hp, hq, hpq⟩)⟩

theorem beq_of_le_of_le (h : x ≤ y) (h' : y ≤ x) : (x == y) = true := by
  obtain ⟨p, q, hp, hq, hpq⟩ := le_iff.mp h
  obtain ⟨q', p', hq', hp', hqp⟩ := le_iff.mp h'
  obtain rfl : q = q' := Option.some.inj (hq.symm.trans hq')
  obtain rfl : p = p' := Option.some.inj (hp.symm.trans hp')
  exact beq_iff.mpr ⟨p, hp, (hqp.antisymm hpq) ▸ hq⟩

end Laws

/-! ## Counts -/

/-- **A magnitude of moderate size is that of a double.** -/
theorem Magnitude.Fits.magnitude_nearest {m : Magnitude} (h : m.Fits) (hhigh : m.exponent ≤ 0) :
    isFinite (nearest false m.num m.den) = true ∧ isNegative (nearest false m.num m.den) = false ∧
      magnitude (nearest false m.num m.den) = m := by
  have hfinest := h.finest_le
  have hlt := h.lt
  have hnormal := h.normal
  have hbits := toNat_toBits_nearest false m.num m.den
  rw [h.nearestBits_eq, if_neg Bool.false_ne_true, Nat.zero_add] at hbits
  obtain ⟨x, hx⟩ : ∃ x, nearest false m.num m.den = x := ⟨_, rfl⟩
  have hexponent : exponentField x = x.toBits.toNat / 2 ^ 52 % 2 ^ 11 := rfl
  have hfraction : fractionField x = x.toBits.toNat % 2 ^ 52 := rfl
  rw [hx] at hbits ⊢
  obtain ⟨significand, exponent⟩ := m
  dsimp only at hhigh
  simp only [finestExponent, topExponent, fractionCount, Nat.pow_eq] at hfinest hlt hnormal hbits
  rw [isFinite, isNegative, bne_iff_ne, decide_eq_false_iff_not, topExponent, signWeight,
    Nat.pow_eq, magnitude]
  refine ⟨by omega, by omega, ?_⟩
  by_cases hsubnormal : significand < 2 ^ 52
  · rw [if_pos (by omega), Magnitude.mk.injEq, finestExponent]
    omega
  · rw [if_neg (by omega), Magnitude.mk.injEq, fractionCount, Nat.pow_eq]
    omega

/-- A natural of at most fifty-three binary digits, on the grid where it has fifty-three. -/
theorem exists_fits_of_lt {n : ℕ} (h : n < 2 ^ 53) :
    ∃ m : Magnitude, m.Fits ∧ m.exponent ≤ 0 ∧ m.num = n * m.den ∧ m.value = n := by
  rcases Nat.eq_zero_or_pos n with rfl | hpos
  · refine ⟨⟨0, finestExponent⟩, ⟨?_, le_rfl, fun h => absurd rfl h⟩, by decide, ?_, ?_⟩
    · exact Nat.mul_pos Nat.two_pos (Nat.pow_pos Nat.two_pos)
    · rw [Magnitude.num, Nat.zero_mul, Nat.zero_mul]
    · rw [Magnitude.value, Nat.cast_zero, zero_mul]
  · have hlog : n.log2 ≤ 52 := Nat.lt_succ_iff.mp ((Nat.log2_lt hpos.ne').mpr h)
    obtain ⟨k, hk⟩ : ∃ k, n.log2 + k = 52 := ⟨52 - n.log2, by omega⟩
    have hpow : 0 < 2 ^ k := Nat.pow_pos Nat.two_pos
    have hlow : 2 ^ 52 ≤ n * 2 ^ k := by
      calc 2 ^ 52 = 2 ^ n.log2 * 2 ^ k := by rw [← pow_add, hk]
        _ ≤ n * 2 ^ k := Nat.mul_le_mul_right _ (Nat.log2_self_le hpos.ne')
    have hhigh : n * 2 ^ k < 2 * 2 ^ 52 := by
      calc n * 2 ^ k < 2 ^ (n.log2 + 1) * 2 ^ k := (Nat.mul_lt_mul_right hpow).mpr Nat.lt_log2_self
        _ = 2 * 2 ^ 52 := by rw [pow_succ', mul_assoc, ← pow_add, hk]
    refine ⟨⟨n * 2 ^ k, -k⟩, ⟨hhigh, ?_, fun _ => hlow⟩, ?_, ?_, ?_⟩
    · dsimp only [finestExponent]
      omega
    · dsimp only
      omega
    · simp [Magnitude.num, Magnitude.den]
    · rw [Magnitude.value, Nat.cast_mul, Nat.cast_pow, Nat.cast_two, zpow_neg, zpow_natCast,
        mul_assoc, mul_inv_cancel₀ (by positivity), mul_one]

/-- **A natural below `2 ^ 53` is the value of a double.** -/
theorem value?_ofInt {n : ℕ} (h : n < 2 ^ 53) : value? (ofInt n) = some ((n : ℝ) : EReal) := by
  obtain ⟨m, hfits, hhigh, hnum, hvalue⟩ := exists_fits_of_lt h
  obtain ⟨hfinite, hsign, hmagnitude⟩ := hfits.magnitude_nearest hhigh
  have hnearest : ofInt n = nearest false m.num m.den := by
    have hpositive : ¬ (n : ℤ) < 0 := by omega
    rw [ofInt, decide_eq_false hpositive, Int.natAbs_natCast]
    exact nearest_congr false one_ne_zero m.den_ne_zero (by rw [hnum, mul_one])
  rw [hnearest, value?_of_isFinite hfinite, sign, hsign, if_neg Bool.false_ne_true, hmagnitude,
    signed, hvalue]

end DecisionRules.Binary64
