import DecisionRules.Proofs.Json.Numeral
import DecisionRules.Proofs.Time.Calendar
import DecisionRules.Time.Timestamp

/-!
# Proofs/Time/RoundTrip — a timestamp is read back from its text

A text has four places for the year and two for each part that follows, and a part that fits its
places is read back from them (`Timestamp.digits?_padded`).  The fraction of a second loses zeros at
its end and gets them back (`Timestamp.fraction?_fractionText`), and an offset below a day is read
back from its hours and minutes (`Timestamp.offset?_offsetText`).

So a timestamp that has a year of four digits where it is shown, and an offset below a day, comes
back as it was: the same moment, shown in the same way (`Timestamp.ofText?_text`).
-/

namespace DecisionRules.Timestamp

open Number

/-! ## Parts of fixed width -/

theorem length_natText_le : ∀ {width n : Nat}, 0 < width → n < 10 ^ width →
    (natText n).length ≤ width
  | 1, n, _, h => by
    rw [natText, Nat.toDigits_of_lt_base (by simpa using h)]
    rfl
  | width + 2, n, _, h => by
    rw [natText, Nat.toDigits_eq_if (by decide)]
    split
    · simp
    · have hrest : n / 10 < 10 ^ (width + 1) := by
        rw [Nat.div_lt_iff_lt_mul (by decide), ← pow_succ]
        exact h
      have := length_natText_le (Nat.succ_pos width) hrest
      rw [natText] at this
      simp only [List.length_append, List.length_singleton]
      omega

theorem length_padded {width n : Nat} (hwidth : 0 < width) (h : n < 10 ^ width) :
    (padded width n).length = width := by
  have := length_natText_le hwidth h
  simp only [padded, List.length_append, List.length_replicate]
  omega

theorem isDigits_padded (width n : Nat) : IsDigits (padded width n) :=
  (isDigits_natText n).zeros_append _

theorem natOfDigits_padded (width n : Nat) : natOfDigits (padded width n) = n := by
  rw [padded, natOfDigits_append, natOfDigits_replicate_zero, Nat.zero_mul, Nat.zero_add,
    natOfDigits_natText]

/-- **A part is read back from its places.** -/
theorem digits?_padded (width n : Nat) : digits? (padded width n) = some n := by
  have hdigits : (padded width n).all isDigit = true :=
    List.all_eq_true.mpr (isDigits_padded width n).isDigit
  rw [digits?, if_pos hdigits, natOfDigits_padded]

theorem exists_padded_two {n : Nat} (h : n < 100) :
    ∃ a b, padded 2 n = [a, b] ∧ digits? [a, b] = some n := by
  have hlength : (padded 2 n).length = 2 := length_padded (by decide) h
  obtain ⟨a, b, hab⟩ := List.length_eq_two.mp hlength
  exact ⟨a, b, hab, hab ▸ digits?_padded 2 n⟩

theorem exists_padded_four {n : Nat} (h : n < 10000) :
    ∃ a b c d, padded 4 n = [a, b, c, d] ∧ digits? [a, b, c, d] = some n := by
  have hlength : (padded 4 n).length = 4 := length_padded (by decide) h
  have hread := digits?_padded 4 n
  generalize padded 4 n = cs at hlength hread
  rcases cs with _ | ⟨a, _ | ⟨b, _ | ⟨c, _ | ⟨d, _ | ⟨e, rest⟩⟩⟩⟩⟩
  case cons.cons.cons.cons.nil => exact ⟨a, b, c, d, rfl, hread⟩
  all_goals cases hlength

/-! ## The offset -/

/-- An offset starts with a letter or a sign. -/
theorem head?_offsetText (offset : Int) : ∃ c, (offsetText offset).head? = some c ∧
    isDigit c = false ∧ c ≠ '.' := by
  rw [offsetText]
  split
  · exact ⟨'Z', rfl, by decide, by decide⟩
  · split
    · exact ⟨'-', rfl, by decide, by decide⟩
    · exact ⟨'+', rfl, by decide, by decide⟩

/-- **An offset below a day is read back.** -/
theorem offset?_offsetText {offset : Int} (h : offset.natAbs < 1440) :
    offset? (offsetText offset) = some offset := by
  rw [offsetText]
  split
  case isTrue hzero => rw [hzero]; rfl
  case isFalse hzero =>
    obtain ⟨h1, h2, hhours, hread⟩ := exists_padded_two (n := offset.natAbs / 60) (by omega)
    obtain ⟨m1, m2, hminutes, hread'⟩ := exists_padded_two (n := offset.natAbs % 60) (by omega)
    rw [hhours, hminutes]
    have hbounds : offset.natAbs / 60 < 24 ∧ offset.natAbs % 60 < 60 := by omega
    have htotal : offset.natAbs / 60 * 60 + offset.natAbs % 60 = offset.natAbs := by omega
    split
    case isTrue hneg =>
      simp only [List.cons_append, List.nil_append, offset?, hread, hread', Option.bind_eq_bind,
        Option.bind_some, if_pos hbounds, htotal]
      simp [abs_of_neg hneg]
    case isFalse hneg =>
      simp only [List.cons_append, List.nil_append, offset?, hread, hread', Option.bind_eq_bind,
        Option.bind_some, if_pos hbounds, htotal]
      simp [abs_of_nonneg (Int.not_lt.mp hneg)]

/-! ## The fraction of a second -/

/-- Characters without the zeros at their end, and those zeros. -/
theorem exists_zeros (cs : List Char) : ∃ n,
    cs = (cs.reverse.dropWhile (· == '0')).reverse ++ List.replicate n '0' := by
  refine ⟨(cs.reverse.takeWhile (· == '0')).length, ?_⟩
  have hzeros : cs.reverse.takeWhile (· == '0') =
      List.replicate (cs.reverse.takeWhile (· == '0')).length '0' :=
    List.eq_replicate_length.mpr fun c hc => by simpa using List.mem_takeWhile_imp hc
  have hsplit := congrArg List.reverse
    (List.takeWhile_append_dropWhile (p := (· == '0')) (l := cs.reverse))
  rw [List.reverse_append, List.reverse_reverse, hzeros, List.reverse_replicate] at hsplit
  exact hsplit.symm

/-- **A fraction of a second is read back**, and what follows it is left. -/
theorem fraction?_fractionText {nanoseconds : Nat} (h : nanoseconds < 10 ^ 9) (offset : Int) :
    Timestamp.fraction? (Timestamp.fractionText nanoseconds ++ offsetText offset) =
      some (nanoseconds, offsetText offset) := by
  obtain ⟨c, hc, hends, hpoint⟩ := head?_offsetText offset
  have hrest : EndsDigits (offsetText offset) := fun other hother => by
    rw [hc] at hother
    exact Option.some.inj hother ▸ hends
  rw [Timestamp.fractionText]
  split
  case isTrue hzero =>
    rcases hoffset : offsetText offset with _ | ⟨first, rest⟩
    · rw [hoffset] at hc
      cases hc
    · rw [hoffset] at hc
      obtain rfl := Option.some.inj hc
      rw [hzero]
      unfold Timestamp.fraction?
      split
      case h_1 heq => exact absurd (List.cons.inj heq).1 hpoint
      case h_2 => rfl
  case isFalse hzero =>
    obtain ⟨n, hsplit⟩ := exists_zeros (padded 9 nanoseconds)
    generalize ((padded 9 nanoseconds).reverse.dropWhile (· == '0')).reverse = digits at hsplit
    have hlength : (padded 9 nanoseconds).length = 9 := length_padded (by decide) h
    have hvalue := natOfDigits_padded 9 nanoseconds
    have hall := (isDigits_padded 9 nanoseconds).isDigit
    rw [hsplit, List.length_append, List.length_replicate] at hlength
    rw [hsplit, natOfDigits_append, natOfDigits_replicate_zero, List.length_replicate,
      Nat.add_zero] at hvalue
    have hdigits : IsDigits digits := by
      refine ⟨?_, fun c hc => hall c (by rw [hsplit]; exact List.mem_append_left _ hc)⟩
      rintro rfl
      rw [natOfDigits_nil, Nat.zero_mul] at hvalue
      exact hzero hvalue.symm
    have hnine : fractionNanoseconds digits = nanoseconds := by
      have hplaces : 9 - digits.length = n := by omega
      rw [fractionNanoseconds, List.take_of_length_le (by omega), hplaces]
      exact hvalue
    rw [List.cons_append, Timestamp.fraction?, hdigits.splitDigits_append hrest]
    simp [hdigits.ne_nil, hnine]

/-! ## The timestamp -/

/-- A timestamp that has a text: where it is shown the year has four digits, and the offset is below
a day. -/
structure IsWritable (t : Timestamp) : Prop where
  year_nonneg : 0 ≤ (Date.ofDayNumber (t.localNanoseconds / perDay + Date.epoch.dayNumber)).year
  year_lt : (Date.ofDayNumber (t.localNanoseconds / perDay + Date.epoch.dayNumber)).year < 10000
  offset_lt : t.offset.natAbs < 1440

theorem monthLength_le (year : Int) (month : Nat) : Date.monthLength year month ≤ 31 := by
  have hall : ∀ length ∈ Date.monthLengths year, length ≤ 31 := by
    simp only [Date.monthLengths, List.forall_mem_cons]
    split <;> simp
  rw [Date.monthLength]
  split
  · exact Nat.zero_le _
  · rcases hfound : (Date.monthLengths year)[month - 1]? with _ | length
    · exact Nat.zero_le _
    · exact hall length (List.mem_of_getElem? hfound)

/-- **A date, a time of day and an offset are read back** from where they stand. -/
theorem ofChars?_parts {date : Date} {hour minute second nanoseconds : Nat} {offset : Int}
    (hdate : date.isValid = true) (hyear : 0 ≤ date.year) (hyear' : date.year < 10000)
    (hhour : hour < 24) (hminute : minute < 60) (hsecond : second < 60)
    (hnanoseconds : nanoseconds < 10 ^ 9) (hoffset : offset.natAbs < 1440) :
    ofChars? (padded 4 date.year.toNat ++ '-' :: padded 2 date.month ++ '-' :: padded 2 date.day ++
        'T' :: padded 2 hour ++ ':' :: padded 2 minute ++ ':' :: padded 2 second ++
        Timestamp.fractionText nanoseconds ++ offsetText offset) =
      some (ofParts date ((hour * 60 + minute) * 60 + second) nanoseconds offset) := by
  have hparts := hdate
  rw [Date.isValid, decide_eq_true_iff] at hparts
  have hday := monthLength_le date.year date.month
  obtain ⟨y1, y2, y3, y4, hy, hyread⟩ := exists_padded_four (n := date.year.toNat) (by omega)
  obtain ⟨m1, m2, hm, hmread⟩ := exists_padded_two (n := date.month) (by omega)
  obtain ⟨d1, d2, hd, hdread⟩ := exists_padded_two (n := date.day) (by omega)
  obtain ⟨h1, h2, hh, hhread⟩ := exists_padded_two (n := hour) (by omega)
  obtain ⟨n1, n2, hn, hnread⟩ := exists_padded_two (n := minute) (by omega)
  obtain ⟨s1, s2, hs, hsread⟩ := exists_padded_two (n := second) (by omega)
  have hback : (⟨(date.year.toNat : Int), date.month, date.day⟩ : Date) = date := by
    rw [Int.toNat_of_nonneg hyear]
  have hmark : 'T'.toNat < 128 := by decide
  rw [hy, hm, hd, hh, hn, hs]
  simp only [List.cons_append, List.nil_append, ofChars?, hyread, hmread, hdread, hhread, hnread,
    hsread, fraction?_fractionText hnanoseconds, offset?_offsetText hoffset, Option.bind_eq_bind,
    Option.bind_some, hback]
  rw [if_pos ⟨hmark, hdate, hhour, hminute⟩, if_pos hsecond]

/-- **A timestamp is read back from its text.** -/
theorem ofText?_text {t : Timestamp} (h : t.IsWritable) : ofText? t.text = some t := by
  obtain ⟨hvalid, hnumber⟩ :=
    Date.ofDayNumber_spec (t.localNanoseconds / perDay + Date.epoch.dayNumber)
  have hlow : 0 ≤ t.localNanoseconds % perDay := Int.emod_nonneg _ (by decide)
  have hhigh : t.localNanoseconds % perDay < perDay := Int.emod_lt_of_pos _ (by decide)
  have hsplit := Int.mul_ediv_add_emod t.localNanoseconds perDay
  rw [ofText?, text, String.toList_ofList, chars]
  dsimp only
  have hfraction : (t.localNanoseconds % perDay % perSecond).toNat < 10 ^ 9 := by
    simp only [perSecond]
    omega
  rw [ofChars?_parts hvalid h.year_nonneg h.year_lt (by omega) (by omega) (by omega) hfraction
    h.offset_lt, ofParts, hnumber, Int.add_sub_cancel]
  obtain ⟨instant, offset⟩ := t
  congr 2
  simp only [localNanoseconds, perDay, perHour, perMinute, perSecond] at *
  omega

end DecisionRules.Timestamp
