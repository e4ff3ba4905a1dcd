import DecisionRules.Time.Calendar
import Mathlib.Algebra.Ring.Nat

/-!
# Proofs/Time/Calendar — every day has one date

The year that a day lies in is found by a division that is off by one at most, and then mended
(`Date.yearOf_spec`).  The days left over go through the lengths of the months
(`Date.splitMonths_spec`) and do not run out of them, for a year is as long as its months
(`Date.sum_monthLengths`).  So the date found is one of the calendar and has the number it was found
for (`Date.ofDayNumber_spec`).
-/

namespace DecisionRules.Date

/-! ## Years -/

/-- **A day lies in the year that is found for it.** -/
theorem yearOf_spec (number : Int) : daysBeforeYear (yearOf number) ≤ number ∧
    number < daysBeforeYear (yearOf number + 1) := by
  unfold yearOf
  dsimp only
  generalize hnear : number * 400 / 146097 = near
  have hlow : daysBeforeYear (near - 1) ≤ number := by
    unfold daysBeforeYear
    omega
  have hhigh : number < daysBeforeYear (near + 1 + 1) := by
    unfold daysBeforeYear
    omega
  split
  case isTrue hnext => exact ⟨hnext, hhigh⟩
  case isFalse hnext =>
    split
    case isTrue hbefore =>
      rw [Int.sub_add_cancel]
      exact ⟨hlow, hbefore⟩
    case isFalse hbefore => exact ⟨Int.not_lt.mp hbefore, Int.not_le.mp hnext⟩

/-- **A year is as long as its months.** -/
theorem sum_monthLengths (year : Int) :
    ((monthLengths year).sum : Int) = daysBeforeYear (year + 1) - daysBeforeYear year := by
  have hleap : isLeapYear year = true ↔ year % 4 = 0 ∧ (year % 100 ≠ 0 ∨ year % 400 = 0) := by
    simp [isLeapYear]
  unfold monthLengths daysBeforeYear
  by_cases h : isLeapYear year = true
  · have hyear := hleap.mp h
    simp only [h, if_true, List.sum_cons, List.sum_nil]
    omega
  · have hyear := mt hleap.mpr h
    simp only [h, Bool.false_eq_true, if_false, List.sum_cons, List.sum_nil]
    omega

/-! ## Months -/

/-- **Days that do not go past the months** come to a day of one of them, with all months before it
behind. -/
theorem splitMonths_spec : ∀ (lengths : List Nat) (month days : Nat), days < lengths.sum →
    ∃ k length, lengths[k]? = some length ∧ (splitMonths month days lengths).1 = month + k ∧
      1 ≤ (splitMonths month days lengths).2 ∧ (splitMonths month days lengths).2 ≤ length ∧
      (lengths.take k).sum + (splitMonths month days lengths).2 = days + 1
  | length :: rest, month, days, h => by
    rw [splitMonths]
    split
    case isTrue hlt => exact ⟨0, length, rfl, rfl, by omega, hlt, by simp⟩
    case isFalse hge =>
      rw [List.sum_cons] at h
      obtain ⟨k, found, hk, hmonth, hfirst, hlast, hsum⟩ :=
        splitMonths_spec rest (month + 1) (days - length) (by omega)
      refine ⟨k + 1, found, hk, by omega, hfirst, hlast, ?_⟩
      rw [List.take_succ_cons, List.sum_cons]
      omega

/-! ## Dates -/

/-- **A day number is that of the date found for it**, which is one of the calendar. -/
theorem ofDayNumber_spec (number : Int) :
    (ofDayNumber number).isValid = true ∧ (ofDayNumber number).dayNumber = number := by
  obtain ⟨hlow, hhigh⟩ := yearOf_spec number
  have hyear := sum_monthLengths (yearOf number)
  obtain ⟨k, length, hk, hmonth, hfirst, hlast, hsum⟩ :=
    splitMonths_spec (monthLengths (yearOf number)) 1
      (number - daysBeforeYear (yearOf number)).toNat (by omega)
  have hbound : k < 12 := (List.getElem?_eq_some_iff.mp hk).1
  have hdate : ofDayNumber number = ⟨yearOf number,
      (splitMonths 1 (number - daysBeforeYear (yearOf number)).toNat
        (monthLengths (yearOf number))).1,
      (splitMonths 1 (number - daysBeforeYear (yearOf number)).toNat
        (monthLengths (yearOf number))).2⟩ := rfl
  generalize splitMonths 1 (number - daysBeforeYear (yearOf number)).toNat
    (monthLengths (yearOf number)) = split at *
  have hlength : monthLength (yearOf number) split.1 = length := by
    rw [monthLength, if_neg (by omega), hmonth, Nat.add_sub_cancel_left, hk, Option.getD_some]
  have hbefore : daysBeforeMonth (yearOf number) split.1 =
      ((monthLengths (yearOf number)).take k).sum := by
    rw [daysBeforeMonth, hmonth, Nat.add_sub_cancel_left, List.sum_eq_foldl]
  rw [hdate]
  constructor
  · rw [isValid, decide_eq_true_iff]
    dsimp only
    rw [hlength]
    omega
  · rw [dayNumber]
    dsimp only
    rw [hbefore]
    omega

end DecisionRules.Date
