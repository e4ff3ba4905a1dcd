import DecisionRules.Json.NumberText
import DecisionRules.Proofs.Number.Shortest

/-!
# Proofs/Json/Numeral — a number is read back from its text

Everything the writer puts out is a numeral by the grammar of JSON: a `Literal` with its parts
spelled one behind the other (`Literal.text`). Reading and writing are compared at that middle: the
reader takes the parts of a spelled literal as they are (`literal?_text`), and the literal that a
number spells denotes the number again (`Legible.number?_literal`).

For a double the second half says more than the layout lets one expect. In full or in scientific
form, the digits and the place of the point come back as the decimal that was laid out; only where
zeros are filled in before the point is the decimal another one, with the same double nearest.

That a decimal is rounded to the nearest double is an assumption on the layer below.  It is made of
single numbers (`RoundsCorrectly`), so that a layer that is right about some of them will do where
only those occur; and of a number that is written as an integer nothing is assumed.
-/

namespace DecisionRules.Number

/-! ## Digits -/

theorem foldl_digits_eq (cs : List Char) : ∀ n : ℕ,
    cs.foldl (fun n c => n * 10 + (c.toNat - '0'.toNat)) n =
      n * 10 ^ cs.length + natOfDigits cs := by
  induction cs with
  | nil => simp [natOfDigits]
  | cons c cs ih =>
    intro n
    rw [natOfDigits, List.foldl_cons, List.foldl_cons, ih, ih (0 * 10 + _), List.length_cons,
      pow_succ]
    ring

theorem natOfDigits_append (cs ds : List Char) :
    natOfDigits (cs ++ ds) = natOfDigits cs * 10 ^ ds.length + natOfDigits ds := by
  rw [natOfDigits, List.foldl_append, foldl_digits_eq ds]
  rfl

@[simp] theorem natOfDigits_nil : natOfDigits [] = 0 := rfl

@[simp] theorem natOfDigits_zero_cons (cs : List Char) :
    natOfDigits ('0' :: cs) = natOfDigits cs := rfl

@[simp] theorem natOfDigits_replicate_zero (n : ℕ) : natOfDigits (List.replicate n '0') = 0 := by
  induction n with
  | zero => rfl
  | succ n ih => rw [List.replicate_succ, natOfDigits_zero_cons, ih]

/-- Only zero starts with a zero. -/
theorem head?_natText {n : ℕ} (hn : n ≠ 0) : (natText n).head? ≠ some '0' := by
  induction n using Nat.strong_induction_on with
  | _ n ih =>
    rw [natText, Nat.toDigits_eq_if (by decide)]
    split
    case isTrue hlt =>
      have hdigit : ∀ d < 10, d ≠ 0 → d.digitChar ≠ '0' := by decide
      simpa using hdigit n hlt hn
    case isFalse hge =>
      rw [List.head?_append_of_ne_nil _ Nat.toDigits_ne_nil]
      exact ih (n / 10) (by omega) (by omega)

/-- A run of digits, at least one. -/
structure IsDigits (cs : List Char) : Prop where
  ne_nil : cs ≠ []
  isDigit : ∀ c ∈ cs, isDigit c = true

theorem isDigits_natText (n : ℕ) : IsDigits (natText n) :=
  ⟨natText_ne_nil n, fun _ => isDigit_of_mem_natText⟩

theorem isDigits_zero : IsDigits ['0'] := ⟨by decide, List.forall_mem_singleton.mpr (by decide)⟩

theorem IsDigits.take {cs : List Char} (h : IsDigits cs) {n : ℕ} (hn : n ≠ 0) :
    IsDigits (cs.take n) :=
  ⟨by simpa using ⟨hn, h.ne_nil⟩, fun c hc => h.isDigit c (List.mem_of_mem_take hc)⟩

theorem IsDigits.drop {cs : List Char} (h : IsDigits cs) {n : ℕ} (hn : n < cs.length) :
    IsDigits (cs.drop n) :=
  ⟨by simpa using hn, fun c hc => h.isDigit c (List.mem_of_mem_drop hc)⟩

theorem IsDigits.append_zeros {cs : List Char} (h : IsDigits cs) (n : ℕ) :
    IsDigits (cs ++ List.replicate n '0') := by
  refine ⟨by simp [h.ne_nil], fun c hc => ?_⟩
  rcases List.mem_append.mp hc with hc | hc
  · exact h.isDigit c hc
  · rw [List.eq_of_mem_replicate hc]
    decide

theorem IsDigits.zeros_append {cs : List Char} (h : IsDigits cs) (n : ℕ) :
    IsDigits (List.replicate n '0' ++ cs) := by
  refine ⟨by simp [h.ne_nil], fun c hc => ?_⟩
  rcases List.mem_append.mp hc with hc | hc
  · rw [List.eq_of_mem_replicate hc]
    decide
  · exact h.isDigit c hc

/-- What follows does not carry a run of digits on. -/
def EndsDigits (cs : List Char) : Prop := ∀ c ∈ cs.head?, isDigit c = false

theorem endsDigits_nil : EndsDigits [] := by
  intro c hc
  simp at hc

theorem IsDigits.splitDigits_append {ds rest : List Char} (hds : IsDigits ds)
    (hrest : EndsDigits rest) : splitDigits (ds ++ rest) = (ds, rest) := by
  have hstop : rest.takeWhile Number.isDigit = [] ∧ rest.dropWhile Number.isDigit = rest := by
    cases rest with
    | nil => exact ⟨rfl, rfl⟩
    | cons c cs => simp [hrest c rfl]
  rw [splitDigits, List.takeWhile_append_of_pos hds.isDigit,
    List.dropWhile_append_of_pos hds.isDigit, hstop.1, hstop.2, List.append_nil]

/-! ## Literals as they are spelled -/

/-- A point and the digits after it, if there are any. -/
def fractionText : Option (List Char) → List Char
  | none => []
  | some digits => '.' :: digits

/-- The letter, the sign and the digits of an exponent, if there is one. -/
def exponentText : Option Int → List Char
  | none => []
  | some e => 'e' :: (if e < 0 then '-' else '+') :: natText e.natAbs

/-- The parts of a literal one behind the other. -/
def Literal.text (l : Literal) : List Char :=
  (if l.negative then ['-'] else []) ++
    (l.whole ++ (fractionText l.fraction ++ exponentText l.exponent))

/-- A literal that the grammar of JSON has: digits where digits belong, and no superfluous leading
zero. -/
structure Literal.WellFormed (l : Literal) : Prop where
  whole : IsDigits l.whole
  no_leading_zero : l.whole.head? = some '0' → l.whole.length ≤ 1
  fraction : ∀ digits ∈ l.fraction, IsDigits digits

theorem endsDigits_exponentText (e : Option Int) : EndsDigits (exponentText e) := by
  cases e with
  | none => exact endsDigits_nil
  | some e =>
    rintro c ⟨⟩
    decide

theorem endsDigits_fractionText (f : Option (List Char)) (e : Option Int) :
    EndsDigits (fractionText f ++ exponentText e) := by
  cases f with
  | none => exact endsDigits_exponentText e
  | some digits =>
    rintro c ⟨⟩
    decide

theorem fraction?_text {f : Option (List Char)} (hf : ∀ digits ∈ f, IsDigits digits)
    (e : Option Int) : fraction? (fractionText f ++ exponentText e) = some (f, exponentText e) := by
  cases f with
  | none => cases e <;> rfl
  | some digits =>
    have hdigits : IsDigits digits := hf digits rfl
    simp [fractionText, fraction?, hdigits.splitDigits_append (endsDigits_exponentText e),
      hdigits.ne_nil]

theorem exponent?_text (e : Option Int) : exponent? (exponentText e) = some (e, []) := by
  cases e with
  | none => rfl
  | some e =>
    have hsplit : splitDigits (natText e.natAbs) = (natText e.natAbs, []) := by
      simpa using (isDigits_natText e.natAbs).splitDigits_append endsDigits_nil
    by_cases he : e < 0
    · simp [exponentText, exponent?, splitSign, he, hsplit, natText_ne_nil, abs_of_neg]
    · simp [exponentText, exponent?, splitSign, he, hsplit, natText_ne_nil,
        abs_of_nonneg (not_lt.mp he)]

/-- **A spelled literal is taken apart into its parts**, and nothing is left over. -/
theorem literal?_text {l : Literal} (h : l.WellFormed) : literal? l.text = some (l, []) := by
  obtain ⟨negative, whole, fraction, exponent⟩ := l
  obtain ⟨hwhole, hzero, hfraction⟩ := h
  have hsplit : splitDigits (whole ++ (fractionText fraction ++ exponentText exponent)) =
      (whole, fractionText fraction ++ exponentText exponent) :=
    hwhole.splitDigits_append (endsDigits_fractionText fraction exponent)
  have hplain :
      (whole.isEmpty || (whole.head? == some '0' && decide (1 < whole.length))) = false := by
    simpa [hwhole.ne_nil] using hzero
  cases negative with
  | true =>
    simp [Literal.text, literal?, hsplit, hplain, fraction?_text hfraction, exponent?_text]
  | false =>
    simp only [Literal.text, Bool.false_eq_true, if_false, List.nil_append, literal?]
    split
    case h_1 hminus =>
      -- a digit is no minus sign
      obtain ⟨c, cs, rfl⟩ := List.exists_cons_of_ne_nil hwhole.ne_nil
      obtain rfl : c = '-' := (List.cons.inj hminus).1
      exact absurd (hwhole.isDigit '-' List.mem_cons_self) (by decide)
    case h_2 =>
      simp [hsplit, hplain, fraction?_text hfraction, exponent?_text]

/-! ## What a literal denotes -/

theorem Literal.decimal_eq {l : Literal} {d : Decimal}
    (hdigits : natOfDigits (l.whole ++ l.fraction.getD []) = d.digits)
    (hexponent : l.exponent.getD 0 - (l.fraction.getD []).length = d.exponent) : l.decimal = d := by
  rw [decimal, hdigits, hexponent]

/-- **A literal with a point or an exponent denotes the double that its decimal is rounded to.** -/
theorem Literal.number?_eq_double [Rounding] {l : Literal} {x : Float}
    (hx : Binary64.isFinite x = true) (hread : Rounding.round l.negative l.decimal = x)
    (h : l.fraction.isSome ∨ l.exponent.isSome) : l.number? = some (.double x) := by
  have hdouble : l.double? = some (.double x) := by
    rw [← hread] at hx ⊢
    exact if_pos hx
  obtain ⟨negative, whole, fraction, exponent⟩ := l
  rcases h with h | h
  · obtain ⟨digits, rfl⟩ := Option.isSome_iff_exists.mp h
    simpa [number?] using hdouble
  · obtain ⟨e, rfl⟩ := Option.isSome_iff_exists.mp h
    simpa [number?] using hdouble

/-! ## The literal of a decimal

In full or in scientific form, the text is that of a literal; both are followed through the same
three questions: how the literal is spelled, whether it is one, and which double it denotes. -/

section Layouts

variable (negative : Bool) (digits : List Char) (point : Int)

/-- A literal in full: the point before the digits, among them, or behind them and the zeros that
fill up. -/
def plainLiteral : Literal :=
  if point ≤ 0 then ⟨negative, ['0'], some (List.replicate (-point).toNat '0' ++ digits), none⟩
  else if point < digits.length then
    ⟨negative, digits.take point.toNat, some (digits.drop point.toNat), none⟩
  else ⟨negative, digits ++ List.replicate (point.toNat - digits.length) '0', some ['0'], none⟩

/-- A literal in scientific form: the point after the first digit, if there are more. -/
def scientificLiteral : Literal :=
  ⟨negative, digits.take 1, if 1 < digits.length then some (digits.drop 1) else none,
    some (point - 1)⟩

theorem text_plainLiteral : (plainLiteral negative digits point).text =
    (if negative then ['-'] else []) ++ plainText digits point := by
  rw [plainLiteral, plainText]
  by_cases hbefore : point ≤ 0
  · simp [Literal.text, fractionText, exponentText, hbefore]
  by_cases hinside : point < digits.length
  · have hzeros : point.toNat - digits.length = 0 := by omega
    have hdrop : ¬ digits.length ≤ point.toNat := by omega
    simp [Literal.text, fractionText, exponentText, hbefore, hinside, hzeros, hdrop]
  · have hdrop : digits.length ≤ point.toNat := by omega
    simp [Literal.text, fractionText, exponentText, hbefore, hinside, hdrop, List.take_of_length_le]

theorem text_scientificLiteral : (scientificLiteral negative digits point).text =
    (if negative then ['-'] else []) ++ scientificText digits point := by
  have hempty : digits.drop 1 = [] ↔ ¬ 1 < digits.length := by rw [List.drop_eq_nil_iff, not_lt]
  rw [scientificLiteral, scientificText]
  generalize digits.drop 1 = fraction at *
  by_cases hlong : 1 < digits.length
  · have hfraction : fraction ≠ [] := by simpa [hlong] using hempty
    simp [Literal.text, fractionText, exponentText, hlong, hfraction]
  · have hfraction : fraction = [] := hempty.mpr hlong
    simp [Literal.text, fractionText, exponentText, hlong, hfraction]

variable {digits point}

/-- No number is laid out in full with a superfluous zero; a zero must stand before its point. -/
theorem wellFormed_plainLiteral (hdigits : IsDigits digits)
    (hzero : digits.head? = some '0' → digits.length = 1 ∧ point = 1) :
    (plainLiteral negative digits point).WellFormed := by
  rw [plainLiteral]
  split_ifs with hbefore hinside
  · refine ⟨isDigits_zero, by simp, ?_⟩
    rintro _ ⟨⟩
    exact hdigits.zeros_append _
  · have hpoint : point.toNat ≠ 0 := by omega
    refine ⟨hdigits.take hpoint, fun h => ?_, ?_⟩
    · rw [List.head?_take, if_neg hpoint] at h
      exact (List.length_take_le _ _).trans (by rw [(hzero h).2]; rfl)
    · rintro _ ⟨⟩
      exact hdigits.drop (by omega)
  · refine ⟨hdigits.append_zeros _, fun h => ?_, ?_⟩
    · rw [List.head?_append_of_ne_nil _ hdigits.ne_nil] at h
      simp [hzero h]
    · rintro _ ⟨⟩
      exact isDigits_zero

theorem wellFormed_scientificLiteral (hdigits : IsDigits digits) :
    (scientificLiteral negative digits point).WellFormed := by
  refine ⟨hdigits.take one_ne_zero, fun _ => List.length_take_le _ _, fun fraction h => ?_⟩
  have hfraction : 1 < digits.length ∧ digits.drop 1 = fraction := by
    simpa [scientificLiteral] using h
  rw [← hfraction.2]
  exact hdigits.drop hfraction.1

/-- In full, the literal has the same double nearest as the digits with their exponent. It writes
the same decimal, except where zeros are filled in: they, and the one behind the point, are digits
like the others then. -/
theorem nearest_plainLiteral (hpoint : point ≤ widestPoint) :
    (plainLiteral negative digits point).decimal.nearest negative =
      Decimal.nearest negative ⟨natOfDigits digits, point - digits.length⟩ := by
  rw [plainLiteral]
  split_ifs with hbefore hinside
  · refine congrArg _ (Literal.decimal_eq ?_ ?_)
    · simp [natOfDigits_append]
    · simp only [Option.getD_none, Option.getD_some, List.length_append, List.length_replicate]
      omega
  · refine congrArg _ (Literal.decimal_eq ?_ ?_)
    · simp
    · simp only [Option.getD_none, Option.getD_some, List.length_drop]
      omega
  · have hfew : point.toNat - digits.length ≤ 400 := by
      simp only [widestPoint] at hpoint
      omega
    have hexponent : ((point.toNat - digits.length : ℕ) : ℤ) = point - digits.length := by omega
    rw [← hexponent, ← Decimal.nearest_shift negative _ hfew]
    refine congrArg _ (Literal.decimal_eq ?_ ?_)
    · simp [natOfDigits_append, pow_succ]
    · simp

/-- In scientific form, the literal writes the digits with their exponent. -/
theorem decimal_scientificLiteral (hdigits : IsDigits digits) :
    (scientificLiteral negative digits point).decimal =
      ⟨natOfDigits digits, point - digits.length⟩ := by
  have hlength : 0 < digits.length := List.length_pos_of_ne_nil hdigits.ne_nil
  rw [scientificLiteral]
  split_ifs with hlong
  · refine Literal.decimal_eq ?_ ?_
    · rw [Option.getD_some, List.take_append_drop]
    · simp only [Option.getD_some, List.length_drop]
      omega
  · refine Literal.decimal_eq ?_ ?_
    · simp [List.take_of_length_le (not_lt.mp hlong)]
    · simp only [Option.getD_some, Option.getD_none, List.length_nil]
      omega

end Layouts

/-- What a decimal is laid out as, by where its point stands. -/
def decimalLiteral (negative : Bool) (d : Decimal) : Literal :=
  let digits := natText d.digits
  let point : Int := digits.length + d.exponent
  if narrowestPoint < point ∧ point ≤ widestPoint then plainLiteral negative digits point
  else scientificLiteral negative digits point

section DecimalLiteral

variable (negative : Bool) (d : Decimal)

/-- **A decimal is written as its literal is spelled.** -/
theorem text_decimalLiteral :
    (decimalLiteral negative d).text = (if negative then ['-'] else []) ++ decimalText d := by
  simp only [decimalLiteral, decimalText]
  split
  · exact text_plainLiteral ..
  · exact text_scientificLiteral ..

theorem negative_decimalLiteral : (decimalLiteral negative d).negative = negative := by
  simp only [decimalLiteral, plainLiteral, scientificLiteral, apply_ite Literal.negative, ite_self]

theorem decimalLiteral_not_integer :
    (decimalLiteral negative d).fraction.isSome ∨ (decimalLiteral negative d).exponent.isSome := by
  simp only [decimalLiteral, plainLiteral, scientificLiteral]
  split_ifs
  all_goals simp

/-- No decimal is laid out with a superfluous zero, as long as a zero has no exponent. -/
theorem wellFormed_decimalLiteral (hd : d.digits = 0 → d.exponent = 0) :
    (decimalLiteral negative d).WellFormed := by
  have hzero : (natText d.digits).head? = some '0' →
      (natText d.digits).length = 1 ∧ ((natText d.digits).length : ℤ) + d.exponent = 1 := by
    intro h
    have hdigits : d.digits = 0 := by
      by_contra hne
      exact head?_natText hne h
    rw [hdigits, hd hdigits]
    exact ⟨rfl, rfl⟩
  simp only [decimalLiteral]
  split
  · exact wellFormed_plainLiteral negative (isDigits_natText _) hzero
  · exact wellFormed_scientificLiteral negative (isDigits_natText _)

/-- **The literal of a decimal has the same double nearest.** -/
theorem nearest_decimalLiteral :
    (decimalLiteral negative d).decimal.nearest negative = d.nearest negative := by
  have hsame : (⟨natOfDigits (natText d.digits), (natText d.digits).length + d.exponent -
      (natText d.digits).length⟩ : Decimal) = d := by
    rw [natOfDigits_natText, add_sub_cancel_left]
  conv_rhs => rw [← hsame]
  simp only [decimalLiteral]
  split
  case isTrue hplain => exact nearest_plainLiteral negative hplain.2
  case isFalse =>
    exact congrArg _ (decimal_scientificLiteral negative (isDigits_natText _))

end DecimalLiteral

/-! ## The literal of a number -/

/-- A number that a text can hold: an integer of sixty-four bits, or a finite double. -/
def Legible : Number → Prop
  | .integer n => leastInteger ≤ n ∧ n < integerLimit
  | .double x => Binary64.isFinite x = true

/-- What a number is written as. -/
def literal : Number → Literal
  | .integer n => ⟨decide (n < 0), natText n.natAbs, none, none⟩
  | .double x => decimalLiteral (Binary64.isNegative x) (Decimal.shortest x)

/-- **A number is written as its literal is spelled.** -/
theorem text_eq_text_literal (n : Number) : n.text = n.literal.text := by
  cases n with
  | integer n =>
    by_cases hn : n < 0
    · simp [text, intText, literal, Literal.text, fractionText, exponentText, hn]
    · simp [text, intText, literal, Literal.text, fractionText, exponentText, hn]
  | double x =>
    rw [text, floatText, literal, text_decimalLiteral]
    by_cases hx : Binary64.isNegative x = true
    · simp [hx]
    · simp [hx]

theorem Legible.wellFormed_literal {n : Number} (h : n.Legible) : n.literal.WellFormed := by
  cases n with
  | integer n =>
    refine ⟨isDigits_natText _, fun hzero => ?_, by simp [literal]⟩
    have hn : n.natAbs = 0 := by
      by_contra hne
      exact head?_natText hne hzero
    simp [literal, hn, natText]
  | double x =>
    refine wellFormed_decimalLiteral _ _ fun hzero => ?_
    rw [Decimal.shortest_of_digits_eq_zero h hzero]

/-- **A number's text is taken apart into its literal.** -/
theorem Legible.literal?_text {n : Number} (h : n.Legible) :
    literal? n.text = some (n.literal, []) := by
  rw [text_eq_text_literal]
  exact Number.literal?_text h.wellFormed_literal

/-- A numeral starts with a digit or a minus sign. -/
theorem Legible.head_text {n : Number} (h : n.Legible) :
    ∃ c ∈ n.text.head?, isDigit c = true ∨ c = '-' := by
  have hwhole := h.wellFormed_literal.whole
  obtain ⟨c, cs, hcs⟩ := List.exists_cons_of_ne_nil hwhole.ne_nil
  rw [text_eq_text_literal, Literal.text, hcs]
  split
  · exact ⟨'-', rfl, .inr rfl⟩
  · exact ⟨c, rfl, .inl (hwhole.isDigit c (hcs ▸ List.mem_cons_self))⟩

/-- A numeral has digits, signs, a point and the letter of the exponent in it, and nothing else. -/
theorem Legible.mem_text {n : Number} (h : n.Legible) {c : Char} (hc : c ∈ n.text) :
    isDigit c = true ∨ c ∈ ['-', '+', '.', 'e'] := by
  have hliteral := h.wellFormed_literal
  rw [text_eq_text_literal, Literal.text] at hc
  generalize n.literal = l at *
  simp only [List.mem_append] at hc
  rcases hc with hsign | hwhole | hfraction | hexponent
  · split at hsign
    · exact .inr (by simp_all)
    · simp at hsign
  · exact .inl (hliteral.whole.isDigit c hwhole)
  · cases hpoint : l.fraction with
    | none => simp [fractionText, hpoint] at hfraction
    | some digits =>
      rw [hpoint, fractionText, List.mem_cons] at hfraction
      rcases hfraction with rfl | hdigit
      · exact .inr (by decide)
      · exact .inl ((hliteral.fraction digits hpoint).isDigit c hdigit)
  · cases hletter : l.exponent with
    | none => simp [exponentText, hletter] at hexponent
    | some e =>
      rw [hletter, exponentText, List.mem_cons, List.mem_cons] at hexponent
      rcases hexponent with rfl | rfl | hdigit
      · exact .inr (by decide)
      · split
        · exact .inr (by decide)
        · exact .inr (by decide)
      · exact .inl (isDigit_of_mem_natText hdigit)

/-- The decimal that a number is written as is rounded to the nearest double.  Nothing is assumed of
integers, which are not rounded. -/
def RoundsCorrectly [Rounding] : Number → Prop
  | .integer _ => True
  | .double x =>
    let l := literal (.double x)
    Rounding.round l.negative l.decimal = l.decimal.nearest l.negative

/-- **The literal of a number denotes that number**: integers stay integers, and a double that is
rounded correctly has every bit back. -/
theorem Legible.number?_literal [Rounding] {n : Number} (h : n.Legible)
    (hround : n.RoundsCorrectly) : n.literal.number? = some n := by
  cases n with
  | integer n =>
    obtain ⟨hlow, hhigh⟩ := h
    by_cases hn : n < 0
    · have hvalue : -(n.natAbs : ℤ) = n := by omega
      have hne : (n == 0) = false := by simp [hn.ne]
      simp only [literal, Literal.number?, natOfDigits_natText, hn, hvalue, hne, decide_true,
        if_true]
      simp [hlow, hhigh]
    · have hvalue : (n.natAbs : ℤ) = n := by omega
      simp only [literal, Literal.number?, natOfDigits_natText, hn, hvalue, decide_false,
        Bool.false_eq_true, if_false]
      simp [hlow, hhigh]
  | double x =>
    refine Literal.number?_eq_double h (hround.trans ?_) (decimalLiteral_not_integer _ _)
    rw [literal, negative_decimalLiteral, nearest_decimalLiteral, Decimal.nearest_shortest h]

end DecisionRules.Number
