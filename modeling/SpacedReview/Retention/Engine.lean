import SpacedReview.Retention.Curve
import SpacedReview.Retention.MemoryState

/-!
# Retention engines

An `Engine` turns answers into memory states: it starts a memory, updates it with a rating, and
estimates recall. `Parameters.engine` is the engine of the forgetting curve. New and lapsed
concepts go through short steps of minutes; all others are scheduled in whole days so that recall
is the wanted one when the concept is due.

## Main definitions

- `Engine` — what scheduling needs to know about a retention model
- `Parameters.intervalDays` — the interval for a stability
- `Parameters.transition` — the next learning state and the delay until the next review
- `Parameters.engine` — the engine of the forgetting curve
-/

namespace SpacedReview

/-- The next review would lie beyond the last instant. -/
inductive ScheduleError where
  | dueDateOutOfRange
deriving Repr, DecidableEq

/-- The text that reports the error. -/
def ScheduleError.message : ScheduleError → String
  | .dueDateOutOfRange => "`DateTime + TimeDelta` overflowed"

/-- A retention model. -/
structure Engine where
  /-- The memory of a concept that was never reviewed. -/
  start : Instant → MemoryState
  /-- The memory after an answer. -/
  update : MemoryState → Rating → Instant → Except ScheduleError MemoryState
  /-- The estimated chance of recall. -/
  retrievability : MemoryState → Instant → Float

/-- What a learner can set about the forgetting curve. -/
structure Parameters where
  weights : Weights
  /-- The chance of recall wanted when a concept is due. -/
  desiredRetention : Float
  /-- The longest interval in days. -/
  maximumInterval : UInt32
  /-- The steps of new concepts in minutes. -/
  learningSteps : List UInt32
  /-- The steps after a lapse in minutes. -/
  relearningSteps : List UInt32
deriving DecidableEq

namespace Parameters

/-- The published parameters. -/
def standard : Parameters :=
  { weights := .standard, desiredRetention := Curve.standardRetention,
    maximumInterval := 36500, learningSteps := [1, 10], relearningSteps := [10] }

instance : Inhabited Parameters := ⟨standard⟩

/-- The published parameters with another wanted recall. -/
def withRetention (retention : Float) : Parameters :=
  { standard with desiredRetention := retention }

/-- The decay of the forgetting curve. -/
def decay (p : Parameters) : Float :=
  p.weights.decay

/-- A float rounded to whole days: half days go up, an infinity to the end of the 64-bit range,
    and what is not a number to zero. -/
def wholeDays (days : Float) : Nat :=
  days.round.toInt64.toInt.toNat

/-- The interval for a stability: whole days, at least one and at most the longest. -/
def intervalDays (p : Parameters) (stability : Float) : Nat :=
  let days := wholeDays (Curve.interval p.decay stability p.desiredRetention)
  max 1 (min days (max p.maximumInterval.toNat 1))

/-- The delay of one step, in seconds. -/
def stepDelay? (steps : List UInt32) (index : Nat) : Option Nat :=
  steps[index]?.map fun minutes => minutes.toNat * 60

/-- The delay after a hard answer, in seconds: half way between the first two steps, or half as
    long again as the only one. The sum of the two steps is taken without a bound; that it may leave
    the words in which steps are given is left out. -/
def hardDelay? : List UInt32 → Option Nat
  | [] => none
  | [only] => some (only.toNat * 90)
  | first :: second :: _ => some ((first.toNat + second.toNat) * 30)

/-- The short step that an answer leads to, if it leads to one. A first good answer goes on to
    the second step; later passes leave the short steps. -/
def shortStep? (p : Parameters) (state : LearningState) (rating : Rating) :
    Option (LearningState × Nat) :=
  match state, rating with
  | .new, .again | .learning, .again => (stepDelay? p.learningSteps 0).map (.learning, ·)
  | .new, .hard | .learning, .hard => (hardDelay? p.learningSteps).map (.learning, ·)
  | .new, .good => (stepDelay? p.learningSteps 1).map (.learning, ·)
  | .relearning, .again | .review, .again =>
    (stepDelay? p.relearningSteps 0).map (.relearning, ·)
  | .relearning, .hard => (hardDelay? p.relearningSteps).map (.relearning, ·)
  | .new, .easy | .learning, .good | .learning, .easy | .relearning, .good
  | .relearning, .easy | .review, .hard | .review, .good | .review, .easy => none

/-- The learning state after an answer and the delay until the next review in seconds. Where no
    short step applies, the concept goes into review for the interval of its new stability. -/
def transition (p : Parameters) (state : LearningState) (rating : Rating) (stability : Float) :
    LearningState × Nat :=
  (p.shortStep? state rating).getD
    (.review, p.intervalDays stability * Instant.secondsPerDay)

/-- The stability after an answer. -/
def nextStability (p : Parameters) (m : MemoryState) (rating : Rating) (now : Instant) : Float :=
  let w := p.weights
  if m.isNew || m.stability ≤ 0.0 then w.firstStability rating.grade
  else
    let elapsed := m.elapsedDays now
    if m.lastReview.isSome && elapsed < 1.0 then w.sameDayStability m.stability rating.grade
    else
      let chance := Curve.retrievability p.decay m.stability elapsed
      match rating with
      | .again => w.lapseStability m.stability m.difficulty chance
      | _ => w.recallStability m.stability m.difficulty chance rating.grade

/-- The difficulty after an answer. -/
def nextDifficulty (p : Parameters) (m : MemoryState) (rating : Rating) : Float :=
  if m.isNew || m.difficulty ≤ 0.0 then p.weights.firstDifficulty rating.grade
  else p.weights.nextDifficulty m.difficulty rating.grade

/-- The memory after an answer. -/
def update (p : Parameters) (m : MemoryState) (rating : Rating) (now : Instant) :
    Except ScheduleError MemoryState :=
  let stability := p.nextStability m rating now
  let (state, delay) := p.transition m.state rating stability
  match now.after? delay with
  | none => .error .dueDateOutOfRange
  | some due => .ok {
      state, stability,
      difficulty := p.nextDifficulty m rating,
      reps := m.reps + 1,
      lapses := if m.state = .review ∧ rating = .again then m.lapses + 1 else m.lapses,
      lastReview := some now,
      nextReview := due }

/-- The engine of the forgetting curve. Nothing is recalled of what was never reviewed. -/
def engine (p : Parameters) : Engine where
  start := MemoryState.fresh
  update := p.update
  retrievability m now :=
    if m.isNew then 0.0 else Curve.retrievability p.decay m.stability (m.elapsedDays now)

end Parameters

end SpacedReview
