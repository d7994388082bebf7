import SpacedReview.Text.Blank
import SpacedReview.Time.Instant

/-!
# Phrasings and interactions

A `Phrasing` is one question about a concept, and an `Interaction` is the record of one answer to
it. A phrasing that was archived or deleted is kept for its records and never shown again.
-/

namespace SpacedReview

/-- One question about a concept. -/
structure Phrasing where
  id : String
  conceptId : String
  question : String
  /-- The choices of a multiple-choice question; none for free text. -/
  options : List String
  correctAnswer : String
  explanation : Option String
  /-- Answers given to this phrasing. -/
  attemptCount : UInt32
  lastAttemptedAt : Option Instant
  createdAt : Instant
  archivedAt : Option Instant
  deletedAt : Option Instant
deriving DecidableEq

namespace Phrasing

/-- A phrasing that was never asked. -/
def create (id conceptId question correctAnswer : String) (now : Instant) : Phrasing :=
  { id, conceptId, question, options := [], correctAnswer, explanation := none,
    attemptCount := 0, lastAttemptedAt := none, createdAt := now,
    archivedAt := none, deletedAt := none }

/-- The phrasing was archived or deleted. -/
def isRetired (p : Phrasing) : Bool :=
  p.archivedAt.isSome || p.deletedAt.isSome

theorem isRetired_eq_false {p : Phrasing} :
    p.isRetired = false ↔ p.archivedAt = none ∧ p.deletedAt = none := by
  simp [isRetired]

/-- An answer is right if it equals the correct one up to blanks at its ends and the case of
    ASCII letters. -/
def accepts (p : Phrasing) (answer : String) : Bool :=
  Text.EqualFold (Text.trim answer) (Text.trim p.correctAnswer)

end Phrasing

/-- The record of one answer. -/
structure Interaction where
  id : String
  conceptId : String
  phrasingId : String
  userAnswer : String
  isCorrect : Bool
  /-- Milliseconds that the learner took. -/
  elapsedMs : UInt64
  sessionId : Option String
  attemptedAt : Instant
deriving DecidableEq

end SpacedReview
