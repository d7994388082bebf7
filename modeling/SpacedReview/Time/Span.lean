/-!
# Spans of time

A `Span` is a length of time to the nanosecond, with a count of seconds that fits into 64 bits.
-/

namespace SpacedReview

/-- The longest length in nanoseconds. -/
def Span.longest : Nat := 18446744073709551615999999999

/-- A length of time. -/
structure Span where
  /-- The length in nanoseconds. -/
  nanos : Nat
  le_longest : nanos ≤ Span.longest
deriving DecidableEq

namespace Span

/-- The span of a number of nanoseconds, unless it is too long. -/
def ofNanos? (n : Nat) : Option Span :=
  if h : n ≤ longest then some ⟨n, h⟩ else none

/-- The span of some milliseconds. -/
def ofMillis (ms : UInt64) : Span :=
  ⟨ms.toNat * 1000000, by have := ms.toNat_lt; simp only [longest]; omega⟩

/-- The whole seconds. -/
def seconds (s : Span) : Nat :=
  s.nanos / 1000000000

/-- The nanoseconds beyond the whole seconds. -/
def subsecond (s : Span) : Nat :=
  s.nanos % 1000000000

/-- The whole milliseconds. -/
def millis (s : Span) : Nat :=
  s.nanos / 1000000

/-- The whole milliseconds, one more if the span has a part of one. -/
def millisUp (s : Span) : Nat :=
  (s.nanos + 999999) / 1000000

/-- The span twice as long, unless it is too long. -/
def double? (s : Span) : Option Span :=
  ofNanos? (2 * s.nanos)

end Span

end SpacedReview
