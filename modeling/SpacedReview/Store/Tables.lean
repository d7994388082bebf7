import SpacedReview.Document.Catalog
import SpacedReview.Json.Writer
import SpacedReview.Store.Table
import SpacedReview.Time.Stamp

/-!
# The tables of the review database

Concepts, phrasings and interactions have a table each. Times are kept as timestamps with six
digits of fraction, a learning state as its name, the choices of a question as a document, and
an elapsed time of more than a signed 64-bit number as the greatest one. Reading a row goes
through its columns in a fixed order, so that of several unreadable columns a certain one is
reported.
-/

namespace SpacedReview

namespace Cell

/-- The cell of an optional text. -/
def ofText? : Option String → Cell
  | none => null
  | some s => text s

/-- The cell of an instant. -/
def ofInstant (t : Instant) : Cell :=
  text t.microStamp

/-- The cell of an optional instant. -/
def ofInstant? : Option Instant → Cell
  | none => null
  | some t => ofInstant t

/-- The cell of a 32-bit number. -/
def ofWord (n : UInt32) : Cell :=
  integer n.toNat

end Cell

/-- The learning state with a name in any case of letters; any other name means a new concept. -/
def LearningState.ofName (name : String) : LearningState :=
  (all.find? fun s => Text.EqualFold s.name name).getD .new

namespace ConceptTable

/-- The table of concepts. -/
def schema : Schema 13 where
  name := "concepts"
  columns := #v[
    ⟨"id", .text, false⟩,
    ⟨"title", .text, true⟩,
    ⟨"description", .text, false⟩,
    ⟨"created_at", .text, true⟩,
    ⟨"updated_at", .text, true⟩,
    ⟨"learning_state", .text, true⟩,
    ⟨"stability", .real, true⟩,
    ⟨"difficulty", .real, true⟩,
    ⟨"reps", .integer, true⟩,
    ⟨"lapses", .integer, true⟩,
    ⟨"last_review", .text, false⟩,
    ⟨"next_review", .text, true⟩,
    ⟨"canonical_phrasing_id", .text, false⟩]
  key := 0

def id : Fin 13 := 0
def title : Fin 13 := 1
def description : Fin 13 := 2
def createdAt : Fin 13 := 3
def updatedAt : Fin 13 := 4
def learningState : Fin 13 := 5
def stability : Fin 13 := 6
def difficulty : Fin 13 := 7
def reps : Fin 13 := 8
def lapses : Fin 13 := 9
def lastReview : Fin 13 := 10
def nextReview : Fin 13 := 11
def canonicalPhrasing : Fin 13 := 12

/-- The row of a concept. -/
def row (c : Concept) : Row 13 := #v[
  .text c.id,
  .text c.title,
  .ofText? c.description,
  .ofInstant c.createdAt,
  .ofInstant c.updatedAt,
  .text c.memory.state.name,
  .real c.memory.stability,
  .real c.memory.difficulty,
  .ofWord c.memory.reps,
  .ofWord c.memory.lapses,
  .ofInstant? c.memory.lastReview,
  .ofInstant c.memory.nextReview,
  .ofText? c.canonicalPhrasing]

/-- The cells of a memory. -/
def memoryCells (m : MemoryState) : List (Fin 13 × Cell) := [
  (learningState, .text m.state.name),
  (stability, .real m.stability),
  (difficulty, .real m.difficulty),
  (reps, .ofWord m.reps),
  (lapses, .ofWord m.lapses),
  (lastReview, .ofInstant? m.lastReview),
  (nextReview, .ofInstant m.nextReview)]

/-- The concept of a row. -/
def read (r : Row 13) : Except StoreError Concept := do
  let created ← schema.text r createdAt
  let updated ← schema.text r updatedAt
  let next ← schema.text r nextReview
  let state ← schema.text r learningState
  return {
    id := ← schema.text r id
    title := ← schema.text r title
    description := ← schema.text? r description
    memory := {
      state := .ofName state
      stability := ← schema.real r stability
      difficulty := ← schema.real r difficulty
      reps := ← schema.word32 r reps
      lapses := ← schema.word32 r lapses
      lastReview := ← schema.instant? r lastReview
      nextReview := ← schema.instantOf nextReview next }
    canonicalPhrasing := ← schema.text? r canonicalPhrasing
    createdAt := ← schema.instantOf createdAt created
    updatedAt := ← schema.instantOf updatedAt updated }

end ConceptTable

namespace PhrasingTable

/-- The table of phrasings. -/
def schema : Schema 11 where
  name := "phrasings"
  columns := #v[
    ⟨"id", .text, false⟩,
    ⟨"concept_id", .text, true⟩,
    ⟨"question", .text, true⟩,
    ⟨"options", .text, true⟩,
    ⟨"correct_answer", .text, true⟩,
    ⟨"explanation", .text, false⟩,
    ⟨"attempt_count", .integer, true⟩,
    ⟨"last_attempted_at", .text, false⟩,
    ⟨"created_at", .text, true⟩,
    ⟨"archived_at", .text, false⟩,
    ⟨"deleted_at", .text, false⟩]
  key := 0

def id : Fin 11 := 0
def conceptId : Fin 11 := 1
def question : Fin 11 := 2
def options : Fin 11 := 3
def correctAnswer : Fin 11 := 4
def explanation : Fin 11 := 5
def attemptCount : Fin 11 := 6
def lastAttemptedAt : Fin 11 := 7
def createdAt : Fin 11 := 8
def archivedAt : Fin 11 := 9
def deletedAt : Fin 11 := 10

/-- The row of a phrasing. -/
def row (p : Phrasing) : Row 11 := #v[
  .text p.id,
  .text p.conceptId,
  .text p.question,
  .text (Phrasing.optionsToJson p.options).write,
  .text p.correctAnswer,
  .ofText? p.explanation,
  .ofWord p.attemptCount,
  .ofInstant? p.lastAttemptedAt,
  .ofInstant p.createdAt,
  .ofInstant? p.archivedAt,
  .ofInstant? p.deletedAt]

/-- The choices of a question in a row. -/
def readOptions (r : Row 11) : Except StoreError (List String) := do
  let text ← schema.text r options
  match (Json.read? text).bind Phrasing.optionsOfJson? with
  | some os => return os
  | none => throw (Schema.unreadable "options" text)

/-- The phrasing of a row. -/
def read (r : Row 11) : Except StoreError Phrasing := do
  let choices ← readOptions r
  let created ← schema.text r createdAt
  return {
    id := ← schema.text r id
    conceptId := ← schema.text r conceptId
    question := ← schema.text r question
    options := choices
    correctAnswer := ← schema.text r correctAnswer
    explanation := ← schema.text? r explanation
    attemptCount := ← schema.word32 r attemptCount
    lastAttemptedAt := ← schema.instant? r lastAttemptedAt
    createdAt := ← schema.instantOf createdAt created
    archivedAt := ← schema.instant? r archivedAt
    deletedAt := ← schema.instant? r deletedAt }

end PhrasingTable

namespace InteractionTable

/-- The table of interactions. -/
def schema : Schema 8 where
  name := "interactions"
  columns := #v[
    ⟨"id", .text, false⟩,
    ⟨"concept_id", .text, true⟩,
    ⟨"phrasing_id", .text, true⟩,
    ⟨"user_answer", .text, true⟩,
    ⟨"is_correct", .integer, true⟩,
    ⟨"elapsed_ms", .integer, true⟩,
    ⟨"session_id", .text, false⟩,
    ⟨"attempted_at", .text, true⟩]
  key := 0

def id : Fin 8 := 0
def conceptId : Fin 8 := 1
def phrasingId : Fin 8 := 2
def userAnswer : Fin 8 := 3
def isCorrect : Fin 8 := 4
def elapsedMs : Fin 8 := 5
def sessionId : Fin 8 := 6
def attemptedAt : Fin 8 := 7

/-- The longest elapsed time that is kept. -/
def longestElapsed : Nat := 0x7FFFFFFFFFFFFFFF

/-- The row of an interaction. -/
def row (i : Interaction) : Row 8 := #v[
  .text i.id,
  .text i.conceptId,
  .text i.phrasingId,
  .text i.userAnswer,
  .integer (if i.isCorrect then 1 else 0),
  .integer (min i.elapsedMs.toNat longestElapsed : Nat),
  .ofText? i.sessionId,
  .ofInstant i.attemptedAt]

/-- The interaction of a row. An elapsed time below zero is read as zero. -/
def read (r : Row 8) : Except StoreError Interaction := do
  let attempted ← schema.text r attemptedAt
  let elapsed ← schema.integer r elapsedMs
  return {
    id := ← schema.text r id
    conceptId := ← schema.text r conceptId
    phrasingId := ← schema.text r phrasingId
    userAnswer := ← schema.text r userAnswer
    isCorrect := ← schema.bool r isCorrect
    elapsedMs := UInt64.ofNat elapsed.toNat
    sessionId := ← schema.text? r sessionId
    attemptedAt := ← schema.instantOf attemptedAt attempted }

end InteractionTable

end SpacedReview
