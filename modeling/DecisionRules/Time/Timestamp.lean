import DecisionRules.Json.NumberText
import DecisionRules.Time.Calendar

/-!
# Time/Timestamp — moments, and how they are written

A timestamp is a moment, in nanoseconds from the start of 1970 in universal time, together with the
offset from universal time in which it is shown. It is written and read in the form of RFC 3339:
`Timestamp.text` shows up to nine decimal places of a second without trailing zeros, and universal
time as `Z`; `Timestamp.ofChars?` takes any offset below a day, any ASCII character between date and
time, and a sixtieth second where a leap second can be, which it reads as the last nanosecond of the
minute.
-/

namespace DecisionRules

/-- A moment with the offset in which it is shown. -/
structure Timestamp where
  /-- Nanoseconds from the start of 1970 in universal time. -/
  instant : Int
  /-- Minutes that local time is ahead of universal time. -/
  offset : Int
  deriving DecidableEq

namespace Timestamp

/-- Nanoseconds in a second. -/
def perSecond : Int := 1000000000

/-- Nanoseconds in a minute. -/
def perMinute : Int := 60 * perSecond

/-- Nanoseconds in an hour. -/
def perHour : Int := 60 * perMinute

/-- Nanoseconds in a day. -/
def perDay : Int := 24 * perHour

/-- The moment so many nanoseconds from the start of 1970, in universal time. -/
def utc (instant : Int) : Timestamp := ⟨instant, 0⟩

/-- The moment as the nanoseconds that a local clock and calendar count. -/
def localNanoseconds (t : Timestamp) : Int := t.instant + t.offset * perMinute

/-! ## Writing -/

/-- A natural in decimal with zeros in front up to a width. -/
def padded (width n : Nat) : List Char :=
  let digits := Number.natText n
  List.replicate (width - digits.length) '0' ++ digits

/-- A fraction of a second: nothing if it is zero, else a point and nine digits less the trailing
zeros. -/
def fractionText (nanoseconds : Nat) : List Char :=
  if nanoseconds = 0 then []
  else '.' :: ((padded 9 nanoseconds).reverse.dropWhile (· == '0')).reverse

/-- An offset: `Z`, or sign, hours and minutes. -/
def offsetText (offset : Int) : List Char :=
  if offset = 0 then ['Z']
  else
    (if offset < 0 then '-' else '+') ::
      (padded 2 (offset.natAbs / 60) ++ ':' :: padded 2 (offset.natAbs % 60))

/-- The timestamp as characters. -/
def chars (t : Timestamp) : List Char :=
  let whole := t.localNanoseconds
  let date := Date.ofDayNumber (whole / perDay + Date.epoch.dayNumber)
  let ofDay := whole % perDay
  let part (unit count : Int) : Nat := (ofDay / unit % count).toNat
  padded 4 date.year.toNat ++ '-' :: padded 2 date.month ++ '-' :: padded 2 date.day ++
    'T' :: padded 2 (part perHour 24) ++ ':' :: padded 2 (part perMinute 60) ++
    ':' :: padded 2 (part perSecond 60) ++ fractionText (ofDay % perSecond).toNat ++
    offsetText t.offset

/-- The timestamp as it is written. -/
def text (t : Timestamp) : String := String.ofList t.chars

/-! ## Reading -/

/-- The number that digits write; `none` if one of them is no digit. -/
def digits? (cs : List Char) : Option Nat :=
  if cs.all Number.isDigit then some (Number.natOfDigits cs) else none

/-- The nanoseconds that the digits after the point of a second write; digits after the ninth do not
count. -/
def fractionNanoseconds (digits : List Char) : Nat :=
  let nine := digits.take 9
  Number.natOfDigits nine * Nat.pow 10 (9 - nine.length)

/-- A fraction of a second, if there is a point, and what follows it. -/
def fraction? : List Char → Option (Nat × List Char)
  | '.' :: cs =>
    let (digits, rest) := Number.splitDigits cs
    if digits.isEmpty then none else some (fractionNanoseconds digits, rest)
  | cs => some (0, cs)

/-- An offset in minutes, to the end of the text. -/
def offset? : List Char → Option Int
  | ['Z'] => some 0
  | ['z'] => some 0
  | [sign, h1, h2, ':', m1, m2] => do
    let hours ← digits? [h1, h2]
    let minutes ← digits? [m1, m2]
    if hours < 24 ∧ minutes < 60 then
      let total : Int := (hours * 60 + minutes : Nat)
      if sign = '+' then some total
      else if sign = '-' then some (-total)
      else none
    else none
  | _ => none

/-- Whether a leap second may follow: the last second of a month in universal time. -/
def endsMonth (t : Timestamp) : Bool :=
  let day := t.instant / perDay + Date.epoch.dayNumber
  decide (t.instant % perDay = perDay - 1) && (Date.ofDayNumber (day + 1)).day == 1

/-- The timestamp of a date, a time of day in seconds, nanoseconds and an offset. -/
def ofParts (date : Date) (seconds nanoseconds : Nat) (offset : Int) : Timestamp :=
  let days := date.dayNumber - Date.epoch.dayNumber
  ⟨days * perDay + seconds * perSecond + nanoseconds - offset * perMinute, offset⟩

/-- The timestamp that characters write. -/
def ofChars? : List Char → Option Timestamp
  | y1 :: y2 :: y3 :: y4 :: '-' :: m1 :: m2 :: '-' :: d1 :: d2 :: separator ::
      h1 :: h2 :: ':' :: n1 :: n2 :: ':' :: s1 :: s2 :: rest => do
    let year ← digits? [y1, y2, y3, y4]
    let month ← digits? [m1, m2]
    let day ← digits? [d1, d2]
    let hour ← digits? [h1, h2]
    let minute ← digits? [n1, n2]
    let second ← digits? [s1, s2]
    let (nanoseconds, rest) ← fraction? rest
    let offset ← offset? rest
    let date : Date := ⟨year, month, day⟩
    if separator.toNat < 128 ∧ date.isValid ∧ hour < 24 ∧ minute < 60 then
      let before := (hour * 60 + minute) * 60
      if second < 60 then some (ofParts date (before + second) nanoseconds offset)
      else if second = 60 then
        let last := ofParts date (before + 59) 999999999 offset
        if last.endsMonth then some last else none
      else none
    else none
  | _ => none

/-- The timestamp that a text writes. -/
def ofText? (s : String) : Option Timestamp := ofChars? s.toList

end Timestamp

end DecisionRules
