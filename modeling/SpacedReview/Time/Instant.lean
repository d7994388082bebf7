import SpacedReview.Time.Calendar

/-!
# Instants

An `Instant` is a point of universal time to the nanosecond, in the years -262143 to 262142. A
leap second is written as the second before it with a nanosecond count of a billion or more, so
instants are ordered by second and then by nanosecond, and there is room for one after any
minute.

## Main definitions

- `Instant.since` — the signed distance of two instants in nanoseconds
- `Instant.after?` — the instant a number of whole seconds later, if the range holds it
- `Instant.cut` — the instant without its nanoseconds below the microsecond
-/

namespace SpacedReview

/-- A point of universal time. -/
structure Instant where
  /-- Seconds since 1970-01-01T00:00:00Z, leap seconds not counted. -/
  second : Int
  /-- Nanoseconds into that second; from a billion on, nanoseconds into the leap second that
      follows it. -/
  nano : Nat
  first_le : -8334601228800 ≤ second
  le_last : second ≤ 8210266876799
  nano_lt : nano < 2000000000
  /-- A leap second follows the last second of a minute. Nanosecond counts that would put one after
      another second, for which there is no text, are left out. -/
  leap_ends_minute : 1000000000 ≤ nano → second % 60 = 59
deriving DecidableEq

namespace Instant

/-- The number of nanoseconds in a second. -/
def nanosPerSecond : Nat := 1000000000

/-- The number of seconds in a day. -/
def secondsPerDay : Nat := 86400

/-- The first second of the year -262143. -/
def firstSecond : Int := -8334601228800

/-- The last second of the year 262142. -/
def lastSecond : Int := 8210266876799

/-- The instant of a second and a nanosecond count, if there is one. -/
def of? (second : Int) (nano : Nat) : Option Instant :=
  if h : (firstSecond ≤ second ∧ second ≤ lastSecond) ∧
      nano < 2000000000 ∧ (1000000000 ≤ nano → second % 60 = 59) then
    some ⟨second, nano, h.1.1, h.1.2, h.2.1, h.2.2⟩
  else none

/-- Earlier or at the same point of time. -/
def le (a b : Instant) : Prop :=
  a.second < b.second ∨ (a.second = b.second ∧ a.nano ≤ b.nano)

instance : LE Instant := ⟨le⟩

instance : LT Instant := ⟨fun a b => a ≤ b ∧ ¬ b ≤ a⟩

instance (a b : Instant) : Decidable (a ≤ b) :=
  inferInstanceAs (Decidable (_ ∨ _))

instance (a b : Instant) : Decidable (a < b) :=
  inferInstanceAs (Decidable (_ ∧ _))

instance : Ord Instant where
  compare a b := (compare a.second b.second).then (compare a.nano b.nano)

/-- The instant lies in a leap second. -/
def isLeap (t : Instant) : Prop :=
  nanosPerSecond ≤ t.nano

instance (t : Instant) : Decidable t.isLeap :=
  inferInstanceAs (Decidable (_ ≤ _))

/-- The second of the day. -/
def timeOfDay (t : Instant) : Nat :=
  (t.second % secondsPerDay).toNat

/-- The day's number. -/
def day (t : Instant) : Int :=
  t.second / secondsPerDay

/-- The distance from `b` to `a` in nanoseconds, negative if `a` is earlier. A leap second
    between two times of day counts when it is the one that the earlier or the later instant
    itself lies in. -/
def since (a b : Instant) : Int :=
  let leap : Int :=
    if b.timeOfDay < a.timeOfDay ∧ b.isLeap then 1
    else if a.timeOfDay < b.timeOfDay ∧ a.isLeap then -1
    else 0
  (a.second - b.second + leap) * nanosPerSecond + ((a.nano : Int) - b.nano)

/-- The instant a number of whole seconds later, or nothing beyond the last one. Moving on from
    a leap second counts from the second before it. -/
def after? (t : Instant) (seconds : Nat) : Option Instant :=
  if seconds = 0 then some t
  else of? (t.second + seconds) (t.nano % nanosPerSecond)

/-- Whole milliseconds since 1970-01-01T00:00:00Z. -/
def millis (t : Instant) : Int :=
  t.second * 1000 + (t.nano / 1000000 : Nat)

/-- The instant at the start of its microsecond. -/
def cut (t : Instant) : Instant where
  second := t.second
  nano := t.nano / 1000 * 1000
  first_le := t.first_le
  le_last := t.le_last
  nano_lt := by have := t.nano_lt; omega
  leap_ends_minute := by have := t.leap_ends_minute; omega

/-- The calendar date of the instant. -/
def date (t : Instant) : Calendar.Date :=
  .ofDayNumber t.day

end Instant

end SpacedReview
