import SpacedReview.Text.Numeral
import SpacedReview.Time.Instant

/-!
# Written timestamps

Timestamps have the form `YYYY-MM-DDTHH:MM:SS.fffZ`. A year outside 0 to 9999 carries a sign, and
a leap second is second 60. `Instant.stamp` keeps every nanosecond and writes as few digits of
the fraction as are exact, in groups of three; `Instant.microStamp` always writes six digits and
drops what lies below them, so that for four-digit years the texts are ordered as the instants.
-/

namespace SpacedReview

namespace Instant

/-- A year with at least four digits. -/
def yearText (year : Int) : List Char :=
  if 0 ≤ year ∧ year ≤ 9999 then Numeral.padded 4 year.toNat
  else (if year < 0 then '-' else '+') :: Numeral.padded 4 year.natAbs

/-- The date and the time of day down to the second. -/
def secondText (t : Instant) : List Char :=
  let d := t.date
  let s := t.timeOfDay
  let last := s % 60 + if t.isLeap then 1 else 0
  yearText d.year ++ '-' :: Numeral.padded 2 d.month ++ '-' :: Numeral.padded 2 d.day ++
    'T' :: Numeral.padded 2 (s / 3600) ++ ':' :: Numeral.padded 2 (s / 60 % 60) ++
    ':' :: Numeral.padded 2 last

/-- The date and the time of day down to the minute, for readers. -/
def minuteText (t : Instant) : String :=
  let d := t.date
  let s := t.timeOfDay
  String.ofList (yearText d.year ++ '-' :: Numeral.padded 2 d.month ++
    '-' :: Numeral.padded 2 d.day ++ ' ' :: Numeral.padded 2 (s / 3600) ++
    ':' :: Numeral.padded 2 (s / 60 % 60))

/-- The fraction of the second with the fewest groups of three digits that are exact. -/
def fractionText (nano : Nat) : List Char :=
  if nano = 0 then []
  else if nano % 1000000 = 0 then '.' :: Numeral.padded 3 (nano / 1000000)
  else if nano % 1000 = 0 then '.' :: Numeral.padded 6 (nano / 1000)
  else '.' :: Numeral.padded 9 nano

/-- The exact timestamp of an instant. -/
def stamp (t : Instant) : String :=
  String.ofList (t.secondText ++ fractionText (t.nano % nanosPerSecond) ++ ['Z'])

/-- The timestamp of an instant cut to the microsecond, always with six digits of fraction. -/
def microStamp (t : Instant) : String :=
  String.ofList
    (t.secondText ++ '.' :: Numeral.padded 6 (t.nano % nanosPerSecond / 1000) ++ ['Z'])

end Instant

end SpacedReview
