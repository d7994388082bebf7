import SpacedReview.Catalog.Concept
import SpacedReview.Retention.Engine

/-!
# Scheduling concepts

An answer that passes or fails is turned into a rating and, through a retention engine, into the
full memory that replaces the old one. Due concepts are asked in the order of
`Engine.comparePriority`: those never reviewed first, then those least likely to be recalled, then
those due earliest, and by id where all this is equal.
-/

namespace SpacedReview

/-- What one answer did to the schedule of a concept. -/
structure ScheduleResult where
  memory : MemoryState
  rating : Rating
  nextReview : Instant
  dueDate : Instant
  lifecycleState : LearningState
  /-- Whole days until the concept is due; zero on the same day. -/
  scheduledDays : UInt32
deriving DecidableEq

/-- Stands for the recall of a concept that was never reviewed. It is no probability: it puts the
    concept in front of all others. -/
def unreviewedRecall : Float := -1.0

namespace Engine

/-- The memory of a concept after an answer, and what follows from it. -/
def schedule (e : Engine) (c : Concept) (correct : Bool) (now : Instant) :
    Except ScheduleError ScheduleResult := do
  let rating := Rating.ofCorrect correct
  let memory ← e.update c.memory rating now
  let due := memory.nextReview
  return { memory, rating, nextReview := due, dueDate := due, lifecycleState := memory.state,
           scheduledDays := UInt32.ofNat ((due.since now).tdiv 86400000000000).toNat }

/-- The estimated recall of a concept, or `unreviewedRecall`. -/
def recallOf (e : Engine) (c : Concept) (now : Instant) : Float :=
  if c.isNew then unreviewedRecall
  else Binary64.clamp 0.0 1.0 (e.retrievability c.memory now)

/-- The order by urgency alone. -/
def compareUrgency (e : Engine) (now : Instant) (a b : Concept) : Ordering :=
  match a.isNew, b.isNew with
  | true, false => .lt
  | false, true => .gt
  | true, true => .eq
  | false, false =>
    compare (Binary64.order (e.recallOf a now)) (Binary64.order (e.recallOf b now))

/-- The order in which concepts are asked. -/
def comparePriority (e : Engine) (now : Instant) (a b : Concept) : Ordering :=
  ((e.compareUrgency now a b).then (compare a.memory.nextReview b.memory.nextReview)).then
    (compare a.id b.id)

/-- The concepts in the order in which they are asked; equal ones keep their places. -/
def sortByPriority (e : Engine) (now : Instant) (cs : List Concept) : List Concept :=
  cs.mergeSort fun a b => e.comparePriority now a b ≠ .gt

end Engine

end SpacedReview
