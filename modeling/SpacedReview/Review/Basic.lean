import SpacedReview.Selection
import SpacedReview.Schedule
import SpacedReview.Store.Basic

/-!
# The review queue

What goes in and out of the review queue: the candidate that is asked next, the answer to it, and
what the answer changed.
-/

namespace SpacedReview

/-- Why the review queue refused a request. -/
inductive ReviewError where
  | store (e : StoreError)
  | conceptNotFound (id : String)
  | phrasingNotFound (id : String)
  /-- The phrasing belongs to another concept. -/
  | phrasingMismatch (conceptId phrasingId : String)
  /-- The phrasing is retired. -/
  | phrasingUnavailable (id : String)
deriving Repr, DecidableEq

/-- The text that reports the error. -/
def ReviewError.message : ReviewError → String
  | store e => e.message
  | conceptNotFound id => "Concept not found: " ++ id
  | phrasingNotFound id => "Phrasing not found: " ++ id
  | phrasingMismatch c p => "Phrasing " ++ p ++ " does not belong to concept " ++ c
  | phrasingUnavailable id => "Phrasing " ++ id ++ " is archived or deleted"

/-- The place of a phrasing among those of its concept that can be shown, by age from 1. -/
structure PhrasingStats where
  index : UInt64
  total : UInt64
deriving Repr, DecidableEq

/-- A due concept and the phrasing to ask. -/
structure FoundCandidate where
  concept : Concept
  phrasing : Phrasing
  phrasingStats : Option PhrasingStats
  selectionReason : SelectionReason
  /-- The estimated recall, or `unreviewedRecall`. -/
  retrievability : Float
  /-- The latest interactions with the phrasing, newest first. -/
  interactionHistory : List Interaction
deriving DecidableEq

/-- The answer to what is due now. -/
inductive ReviewCandidate where
  /-- Not known yet. -/
  | pending
  /-- Nothing is due. -/
  | empty
  | found (c : FoundCandidate)
deriving DecidableEq

/-- The concept of a found candidate. -/
def ReviewCandidate.conceptId? : ReviewCandidate → Option String
  | found c => some c.concept.id
  | _ => none

/-- One answer of a learner. -/
structure SubmitRequest where
  conceptId : String
  phrasingId : String
  answer : String
  isCorrect : Bool
  elapsedMs : UInt64
  sessionId : Option String
deriving DecidableEq

/-- What an answer changed. -/
structure SubmitOutcome where
  nextReview : Instant
  scheduledDays : UInt32
  newState : LearningState
  interactionId : String
deriving DecidableEq

end SpacedReview
