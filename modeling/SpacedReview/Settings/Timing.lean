import SpacedReview.Time.Span

/-!
# Timing of a session

A session polls at regular intervals and gives up when it has waited too long for a question.
`Timing.normalize` sees to it that both are usable: there is some time between two polls, and at
least two of them happen before the session gives up.
-/

namespace SpacedReview

/-- Why a timing cannot be used. -/
inductive TimingError where
  /-- Two intervals between polls are longer than the longest span. -/
  | intervalTooLong
deriving Repr, DecidableEq

/-- The text that reports the error. -/
def TimingError.message : TimingError → String
  | intervalTooLong => "overflow when multiplying duration by scalar"

/-- How often a session polls and how long it waits. -/
structure Timing where
  pollInterval : Span
  /-- How long the session waits for a question. -/
  loadingTimeout : Span
deriving DecidableEq

namespace Timing

/-- The milliseconds between polls unless something else is wanted. -/
def standardInterval : UInt64 := 1500

/-- The milliseconds that a session waits unless something else is wanted. -/
def standardTimeout : UInt64 := 15000

/-- The timing unless something else is wanted. -/
def standard : Timing :=
  ⟨.ofMillis standardInterval, .ofMillis standardTimeout⟩

/-- The interval between polls, or the standard one if there is no time between them. -/
def usableInterval (s : Span) : Span :=
  if s.nanos = 0 then .ofMillis standardInterval else s

/-- The timing with a usable interval and a timeout of at least two intervals. -/
def normalize (t : Timing) : Except TimingError Timing :=
  let interval := usableInterval t.pollInterval
  match interval.double? with
  | none => .error .intervalTooLong
  | some least =>
    .ok ⟨interval, if t.loadingTimeout.nanos < least.nanos then least else t.loadingTimeout⟩

end Timing

end SpacedReview
