import SpacedReview.Decimal.Binary64
import SpacedReview.Retention.Rating
import SpacedReview.Time.Instant

/-!
# Memory states

A `MemoryState` is all that scheduling knows about a concept: where it stands, the stability and
difficulty of the memory, how often it was answered and forgotten, and when it was last and will
next be reviewed.
-/

namespace SpacedReview

/-- The memory of one concept. -/
structure MemoryState where
  state : LearningState
  /-- Days until recall falls to nine in ten. -/
  stability : Float
  /-- Between 1 and 10; zero before the first review. -/
  difficulty : Float
  /-- Answers given. -/
  reps : UInt32
  /-- Answers that forgot a concept in review. -/
  lapses : UInt32
  lastReview : Option Instant
  nextReview : Instant
deriving DecidableEq

namespace MemoryState

/-- The memory of a concept that was never reviewed and is due at once. -/
def fresh (now : Instant) : MemoryState :=
  { state := .new, stability := 0.0, difficulty := 0.0, reps := 0, lapses := 0,
    lastReview := none, nextReview := now }

/-- No answer was given yet. -/
def isNew (m : MemoryState) : Bool :=
  m.state = .new

/-- The concept is due from the instant of its next review on. -/
def isDue (m : MemoryState) (now : Instant) : Bool :=
  m.nextReview ≤ now

/-- Days since the last review, counted in whole milliseconds; none if there was no review or it
    lies ahead. -/
def elapsedDays (m : MemoryState) (now : Instant) : Float :=
  let days := match m.lastReview with
    | some last => Float.ofInt ((now.since last).tdiv 1000000) / 1000.0 / 86400.0
    | none => 0.0
  Binary64.larger days 0.0

end MemoryState

end SpacedReview
