/-!
# Time/Calendar — days and dates

Days are numbered from the first of January of the year 0 of the Gregorian calendar, carried on
beyond its introduction in both directions. `Date.dayNumber` gives the number of a date and
`Date.ofDayNumber` the date with a number.
-/

namespace DecisionRules

/-- A day of the calendar. -/
structure Date where
  year : Int
  /-- From 1 to 12. -/
  month : Nat
  /-- From 1. -/
  day : Nat
  deriving DecidableEq

namespace Date

/-- Every fourth year is a leap year, save for the centuries that 400 does not divide. -/
def isLeapYear (year : Int) : Bool :=
  year % 4 == 0 && (year % 100 != 0 || year % 400 == 0)

/-- The lengths of the months of a year. -/
def monthLengths (year : Int) : List Nat :=
  [31, if isLeapYear year then 29 else 28, 31, 30, 31, 30, 31, 31, 30, 31, 30, 31]

/-- The number of days in a month; none in a month that does not exist. -/
def monthLength (year : Int) (month : Nat) : Nat :=
  if month = 0 then 0 else (monthLengths year)[month - 1]?.getD 0

/-- Whether the calendar has such a day. -/
def isValid (d : Date) : Bool :=
  decide (1 ≤ d.month ∧ d.month ≤ 12 ∧ 1 ≤ d.day ∧ d.day ≤ monthLength d.year d.month)

/-- The number of the first day of a year. -/
def daysBeforeYear (year : Int) : Int :=
  365 * year + (year + 3) / 4 - (year + 99) / 100 + (year + 399) / 400

/-- How many days of a year precede a month. -/
def daysBeforeMonth (year : Int) (month : Nat) : Nat :=
  ((monthLengths year).take (month - 1)).foldl (· + ·) 0

/-- The number of a date. -/
def dayNumber (d : Date) : Int :=
  daysBeforeYear d.year + daysBeforeMonth d.year d.month + (d.day - 1)

/-- The year that a day lies in: four hundred years have 146097 days, and the quotient is off by one
at most. -/
def yearOf (number : Int) : Int :=
  let near := number * 400 / 146097
  if daysBeforeYear (near + 1) ≤ number then near + 1
  else if number < daysBeforeYear near then near - 1
  else near

/-- Finds the month and the day in it, both from 1, of the day that lies `days` after the first of
the month `month`, given the lengths of the months from there on. -/
def splitMonths (month : Nat) (days : Nat) : List Nat → Nat × Nat
  | [] => (month, days + 1)
  | length :: rest =>
    if days < length then (month, days + 1) else splitMonths (month + 1) (days - length) rest

/-- The date with a number. -/
def ofDayNumber (number : Int) : Date :=
  let year := yearOf number
  let (month, day) := splitMonths 1 (number - daysBeforeYear year).toNat (monthLengths year)
  ⟨year, month, day⟩

/-- The first of January 1970. -/
def epoch : Date := ⟨1970, 1, 1⟩

end Date

end DecisionRules
