/-!
# Ratings and learning states

A `Rating` says how well an answer was recalled, on a scale from 1 to 4. A `LearningState` says
where a concept stands: never reviewed, in short steps of minutes, in review at intervals of
days, or back in short steps after a lapse. Both have a lower-case name under which they are
written.
-/

namespace SpacedReview

/-- How well an answer was recalled. -/
inductive Rating where
  | again
  | hard
  | good
  | easy
deriving Repr, DecidableEq, Inhabited

namespace Rating

/-- Every rating, from the worst to the best. -/
def all : List Rating := [again, hard, good, easy]

/-- The place on the scale from 1 to 4. -/
def grade : Rating → Nat
  | again => 1
  | hard => 2
  | good => 3
  | easy => 4

/-- The rating at a place on the scale. -/
def ofGrade? (n : Int) : Option Rating :=
  all.find? fun r => (r.grade : Int) = n

/-- The written name. -/
def name : Rating → String
  | again => "again"
  | hard => "hard"
  | good => "good"
  | easy => "easy"

/-- A pass counts as good recall and a failure as none. -/
def ofCorrect (correct : Bool) : Rating :=
  if correct then good else again

end Rating

/-- Where a concept stands on its way into memory. -/
inductive LearningState where
  /-- Never reviewed. -/
  | new
  /-- In the short steps of a first acquaintance. -/
  | learning
  /-- Scheduled in days. -/
  | review
  /-- In the short steps after a lapse. -/
  | relearning
deriving Repr, DecidableEq, Inhabited

namespace LearningState

/-- Every state. -/
def all : List LearningState := [new, learning, review, relearning]

/-- The written name. -/
def name : LearningState → String
  | new => "new"
  | learning => "learning"
  | review => "review"
  | relearning => "relearning"

end LearningState

end SpacedReview
