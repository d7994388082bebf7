import SpacedReview.Json.Decoder
import SpacedReview.Retention.Engine
import SpacedReview.Schedule
import SpacedReview.Time.Stamp
import SpacedReview.Time.StampReader

/-!
# Documents of the retention model

How memory states, parameters and schedules are written as documents and read from them. Fields
come in the order of the record and have camel-case names; an instant is its exact timestamp.
-/

namespace SpacedReview

namespace Instant

/-- The document of an instant. -/
def toJson (t : Instant) : Json :=
  .ofString t.stamp

/-- The instant of a document. -/
def ofJson? (j : Json) : Option Instant :=
  j.text?.bind read?

end Instant

namespace Rating

/-- The document of a rating. -/
def toJson (r : Rating) : Json :=
  .ofString r.name

/-- The rating of a document. -/
def ofJson? : Json → Option Rating :=
  Json.named? name all

end Rating

namespace LearningState

/-- The document of a learning state. -/
def toJson (s : LearningState) : Json :=
  .ofString s.name

/-- The learning state of a document. -/
def ofJson? : Json → Option LearningState :=
  Json.named? name all

end LearningState

namespace MemoryState

/-- The names of the fields. -/
def fieldNames : List String :=
  ["state", "stability", "difficulty", "reps", "lapses", "lastReview", "nextReview"]

/-- The document of a memory state. -/
def toJson (m : MemoryState) : Json :=
  .ofFields [
    ("state", some m.state.toJson),
    ("stability", some (.ofFloat m.stability)),
    ("difficulty", some (.ofFloat m.difficulty)),
    ("reps", some (.ofNat m.reps.toNat)),
    ("lapses", some (.ofNat m.lapses.toNat)),
    ("lastReview", m.lastReview.map Instant.toJson),
    ("nextReview", some m.nextReview.toJson)]

/-- The memory state of a document; a missing learning state means a new concept. -/
def ofJson? (j : Json) : Option MemoryState := do
  let r ← j.record? fieldNames
  return {
    state := ← r.defaulted? "state" .new LearningState.ofJson?
    stability := ← r.required? "stability" Json.float?
    difficulty := ← r.required? "difficulty" Json.float?
    reps := ← r.required? "reps" Json.word32?
    lapses := ← r.required? "lapses" Json.word32?
    lastReview := ← r.optional? "lastReview" Instant.ofJson?
    nextReview := ← r.required? "nextReview" Instant.ofJson? }

end MemoryState

namespace Weights

/-- The document of the weights: an array of all of them. -/
def toJson (w : Weights) : Json :=
  .array (w.toList.map Json.ofFloat)

/-- The weights of a document. -/
def ofJson? (j : Json) : Option Weights := do
  let ws ← j.list? Json.float?
  if h : ws.length = 21 then return ⟨⟨ws⟩, h⟩ else none

end Weights

namespace Parameters

/-- The names of the fields. -/
def fieldNames : List String :=
  ["weights", "desiredRetention", "maximumInterval", "learningSteps", "relearningSteps"]

/-- The document of steps in minutes. -/
def stepsToJson (steps : List UInt32) : Json :=
  .array (steps.map fun n => .ofNat n.toNat)

/-- The document of parameters. -/
def toJson (p : Parameters) : Json :=
  .ofFields [
    ("weights", some p.weights.toJson),
    ("desiredRetention", some (.ofFloat p.desiredRetention)),
    ("maximumInterval", some (.ofNat p.maximumInterval.toNat)),
    ("learningSteps", some (stepsToJson p.learningSteps)),
    ("relearningSteps", some (stepsToJson p.relearningSteps))]

/-- The parameters of a document. -/
def ofJson? (j : Json) : Option Parameters := do
  let r ← j.record? fieldNames
  return {
    weights := ← r.required? "weights" Weights.ofJson?
    desiredRetention := ← r.required? "desiredRetention" Json.float?
    maximumInterval := ← r.required? "maximumInterval" Json.word32?
    learningSteps := ← r.required? "learningSteps" (Json.list? Json.word32?)
    relearningSteps := ← r.required? "relearningSteps" (Json.list? Json.word32?) }

end Parameters

namespace ScheduleResult

/-- The names of the fields. -/
def fieldNames : List String :=
  ["memoryState", "rating", "nextReview", "dueDate", "lifecycleState", "scheduledDays"]

/-- The document of a schedule. -/
def toJson (s : ScheduleResult) : Json :=
  .ofFields [
    ("memoryState", some s.memory.toJson),
    ("rating", some s.rating.toJson),
    ("nextReview", some s.nextReview.toJson),
    ("dueDate", some s.dueDate.toJson),
    ("lifecycleState", some s.lifecycleState.toJson),
    ("scheduledDays", some (.ofNat s.scheduledDays.toNat))]

/-- The schedule of a document. -/
def ofJson? (j : Json) : Option ScheduleResult := do
  let r ← j.record? fieldNames
  return {
    memory := ← r.required? "memoryState" MemoryState.ofJson?
    rating := ← r.required? "rating" Rating.ofJson?
    nextReview := ← r.required? "nextReview" Instant.ofJson?
    dueDate := ← r.required? "dueDate" Instant.ofJson?
    lifecycleState := ← r.required? "lifecycleState" LearningState.ofJson?
    scheduledDays := ← r.required? "scheduledDays" Json.word32? }

end ScheduleResult

end SpacedReview
