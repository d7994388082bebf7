/-!
# The proleptic Gregorian calendar

Days are numbered from 1970-01-01, and `Date` is a calendar day. Years are counted from March
here: a leap day is then the last day of its year, so that `dayNumber` adds up whole years and
months, and `ofDayNumber` takes them off again, century by century.

## Main definitions

- `Date.Valid` — the month exists and the day exists in it
- `Date.dayNumber` — the number of a calendar day
- `Date.ofDayNumber` — the calendar day of a number
-/

namespace SpacedReview

namespace Calendar

/-- A calendar day; the year before year 1 is year 0. -/
structure Date where
  year : Int
  month : Nat
  day : Nat
deriving Repr, DecidableEq

/-- Every fourth year is a leap year, except a century that is not divisible by 400. -/
def isLeap (year : Int) : Bool :=
  year % 4 = 0 && (year % 100 ≠ 0 || year % 400 = 0)

/-- The number of days in a month. -/
def daysIn (year : Int) (month : Nat) : Nat :=
  match month with
  | 2 => if isLeap year then 29 else 28
  | 4 | 6 | 9 | 11 => 30
  | _ => 31

namespace Date

/-- The month and the day exist. -/
def Valid (d : Date) : Prop :=
  1 ≤ d.month ∧ d.month ≤ 12 ∧ 1 ≤ d.day ∧ d.day ≤ daysIn d.year d.month

instance (d : Date) : Decidable d.Valid :=
  inferInstanceAs (Decidable (_ ∧ _ ∧ _ ∧ _))

/-- The days from the first of March to the first of the month that lies `m` months later. -/
def daysBeforeMonth (m : Nat) : Nat :=
  (153 * m + 2) / 5

/-- The days from 0000-03-01 to the first of March of a year. -/
def daysBeforeYear (year : Int) : Int :=
  365 * year + year / 4 - year / 100 + year / 400

/-- The days from 0000-03-01 to 1970-01-01. -/
def epochOffset : Int := 719468

/-- The number of a calendar day. -/
def dayNumber (d : Date) : Int :=
  let year := if d.month ≤ 2 then d.year - 1 else d.year
  let month := if d.month ≤ 2 then d.month + 9 else d.month - 3
  daysBeforeYear year + daysBeforeMonth month + d.day - 1 - epochOffset

/-- The calendar day of a number. The last day of a four-year or four-century cycle belongs to
    the cycle's last year, which is one day longer than the others. -/
def ofDayNumber (n : Int) : Date :=
  let n := n + epochOffset
  let cycle := n / 146097
  let inCycle := (n % 146097).toNat
  let century := min (inCycle / 36524) 3
  let inCentury := inCycle - 36524 * century
  let leapCycle := inCentury / 1461
  let inLeapCycle := inCentury % 1461
  let yearInCycle := min (inLeapCycle / 365) 3
  let inYear := inLeapCycle - 365 * yearInCycle
  let year := 400 * cycle + 100 * century + 4 * leapCycle + yearInCycle
  let month := (5 * inYear + 2) / 153
  let day := inYear - daysBeforeMonth month + 1
  if month < 10 then ⟨year, month + 3, day⟩ else ⟨year + 1, month - 9, day⟩

end Date

end Calendar

end SpacedReview
