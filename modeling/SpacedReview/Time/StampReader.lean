import SpacedReview.Text.Blank
import SpacedReview.Text.Numeral
import SpacedReview.Time.Instant

/-!
# Reading timestamps

Two readers share the fields of a timestamp. `Instant.read?` is lenient: fields may be shorter
than their usual width, blanks may stand in front of a field or a mark, a year may carry a sign
and then have any length, and the word `UTC` may stand for the zone. `Instant.readStrict?` wants
the exact form with a four-digit year. Both accept a lower-case `t` and `z`, a blank in place of
`T`, a zone offset in hours and minutes, and second 60 as a leap second; digits of the fraction
after the ninth are dropped.
-/

namespace SpacedReview

namespace StampReader

/-- The fields of a timestamp as they are written. -/
structure Fields where
  year : Int
  month : Nat
  day : Nat
  hour : Nat
  minute : Nat
  second : Nat
  nano : Nat
  /-- Seconds that local time is ahead of universal time. -/
  offset : Int
deriving Repr, DecidableEq

/-- The greatest value of a 64-bit signed number, which bounds every field while it is read. -/
def fieldLimit : Nat := 0x7FFFFFFFFFFFFFFF

/-- At least `least` and at most `most` digits, and the rest. -/
def number? (least most : Nat) (cs : List Char) : Option (Nat × List Char) :=
  let ds := (cs.take most).takeWhile Numeral.isDigit
  if least ≤ ds.length ∧ Numeral.value ds ≤ fieldLimit then
    some (Numeral.value ds, cs.drop ds.length)
  else none

/-- One given character. -/
def mark? (c : Char) : List Char → Option (List Char)
  | [] => none
  | d :: r => if d = c then some r else none

/-- A fraction of a second, if there is a point: up to nine digits count, and further digits are
    dropped. -/
def fraction? : List Char → Option (Nat × List Char)
  | '.' :: r => do
    let ds := (r.take 9).takeWhile Numeral.isDigit
    guard (ds ≠ [])
    return (Numeral.value ds * Nat.pow 10 (9 - ds.length), r.dropWhile Numeral.isDigit)
  | r => some (0, r)

/-- The mark between the date and the time. -/
def between? : List Char → Option (List Char)
  | [] => none
  | c :: r => if c = 'T' ∨ c = 't' ∨ c = ' ' then some r else none

/-- A sign: plus, hyphen, or the minus sign proper. True for the negative ones. -/
def sign? : List Char → Option (Bool × List Char)
  | '+' :: r => some (false, r)
  | '-' :: r => some (true, r)
  | '\u2212' :: r => some (true, r)
  | _ => none

/-- A zone offset: `Z`, or a sign, two digits of hours, what `colon` accepts, and two digits of
    minutes below 60. -/
def offset? (colon : List Char → Option (List Char)) (cs : List Char) :
    Option (Int × List Char) :=
  match cs with
  | 'Z' :: r => some (0, r)
  | 'z' :: r => some (0, r)
  | _ => do
    let (negative, r) ← sign? cs
    let (hours, r) ← number? 2 2 r
    let r ← colon r
    let (minutes, r) ← number? 2 2 r
    guard (minutes < 60)
    let seconds : Int := hours * 3600 + minutes * 60
    return (if negative then -seconds else seconds, r)

/-- The year of the lenient form: up to four digits, or a sign and any number of digits. -/
def lenientYear? (cs : List Char) : Option (Int × List Char) := do
  match cs with
  | '-' :: r =>
    let (n, r) ← number? 1 r.length r
    return (-n, r)
  | '+' :: r =>
    let (n, r) ← number? 1 r.length r
    return (n, r)
  | _ =>
    let (n, r) ← number? 1 4 cs
    return (n, r)

/-- A mark of the lenient form: blanks may stand in front of it. -/
def lenientMark? (c : Char) (cs : List Char) : Option (List Char) :=
  mark? c (Text.trimStart cs)

/-- A two-digit field of the lenient form: blanks may stand in front of it, and one digit is
    enough. -/
def lenientField? (cs : List Char) : Option (Nat × List Char) :=
  number? 1 2 (Text.trimStart cs)

/-- The zone of the lenient form, after blanks: the word `UTC` in any case, or an offset whose
    halves are separated by any number of colons and blanks. -/
def lenientZone? (cs : List Char) : Option (Int × List Char) :=
  let cs := Text.trimStart cs
  if (cs.take 3).map Text.foldChar = ['u', 't', 'c'] then some (0, cs.drop 3)
  else offset? (fun r => some (r.dropWhile fun c => c == ':' || Text.isBlank c)) cs

/-- The fields of the lenient form. -/
def lenient? (cs : List Char) : Option Fields := do
  let (year, r) ← lenientYear? (Text.trimStart cs)
  let r ← lenientMark? '-' r
  let (month, r) ← lenientField? r
  let r ← lenientMark? '-' r
  let (day, r) ← lenientField? r
  let r ← between? r
  let (hour, r) ← lenientField? r
  let r ← lenientMark? ':' r
  let (minute, r) ← lenientField? r
  let r ← lenientMark? ':' r
  let (second, r) ← lenientField? r
  let (nano, r) ← fraction? r
  let (offset, r) ← lenientZone? r
  guard (Text.trimStart r = [])
  return { year, month, day, hour, minute, second, nano, offset }

/-- The fields of the strict form. -/
def strict? (cs : List Char) : Option Fields := do
  let (year, r) ← number? 4 4 cs
  let r ← mark? '-' r
  let (month, r) ← number? 2 2 r
  let r ← mark? '-' r
  let (day, r) ← number? 2 2 r
  let r ← between? r
  let (hour, r) ← number? 2 2 r
  let r ← mark? ':' r
  let (minute, r) ← number? 2 2 r
  let r ← mark? ':' r
  let (second, r) ← number? 2 2 r
  let (nano, r) ← fraction? r
  let (offset, r) ← offset? (mark? ':') r
  guard (r = [])
  return { year, month, day, hour, minute, second, nano, offset }

/-- The local second that the fields name, if the date and the time exist. -/
def Fields.localSecond? (f : Fields) : Option Int :=
  let d : Calendar.Date := ⟨f.year, f.month, f.day⟩
  if d.Valid ∧ f.hour < 24 ∧ f.minute < 60 ∧ f.second ≤ 60 then
    some (d.dayNumber * Instant.secondsPerDay +
      (f.hour * 3600 + f.minute * 60 + min f.second 59 : Nat))
  else none

/-- The instant that the fields name. Both the local time and the universal time must lie in the
    range, and the offset is less than a day. -/
def Fields.instant? (f : Fields) : Option Instant := do
  let here ← f.localSecond?
  guard (Instant.firstSecond ≤ here ∧ here ≤ Instant.lastSecond)
  guard (f.offset.natAbs < Instant.secondsPerDay)
  Instant.of? (here - f.offset) (f.nano + if f.second = 60 then Instant.nanosPerSecond else 0)

end StampReader

namespace Instant

/-- The instant of a timestamp in the lenient form. -/
def read? (s : String) : Option Instant :=
  (StampReader.lenient? s.toList).bind StampReader.Fields.instant?

/-- The instant of a timestamp in the strict form. -/
def readStrict? (s : String) : Option Instant :=
  (StampReader.strict? s.toList).bind StampReader.Fields.instant?

end Instant

end SpacedReview
