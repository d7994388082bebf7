import SpacedReview.Review.Basic
import SpacedReview.Text.IdSet

/-!
# The state of a session

A session shows one question at a time. While the question is unanswered its lock is held, and
nothing but the learner's own answer or skip may replace it. `SessionState.apply` is the only way
in which the state changes: every event has an effect in every phase.

## Main definitions

- `SessionPhase`, `Question`, `SessionState` — what a session shows
- `SessionEvent` — what can happen to it
- `SessionState.apply` — the state after an event
- `SessionState.awaitsQuestion` — the session waits for its next question
-/

namespace SpacedReview

/-- What a session is doing. -/
inductive SessionPhase where
  | loading
  /-- Nothing is due. -/
  | empty
  /-- A question is on show. -/
  | reviewing
  /-- The session has given up. -/
  | error
deriving Repr, DecidableEq, Inhabited

namespace SessionPhase

def all : List SessionPhase := [loading, empty, reviewing, error]

def name : SessionPhase → String
  | loading => "loading"
  | empty => "empty"
  | reviewing => "reviewing"
  | error => "error"

end SessionPhase

/-- A question on show. -/
structure Question where
  /-- The candidate as it was when the question was installed. -/
  candidate : FoundCandidate
  /-- The lock that is held until the question is answered or skipped. -/
  lock : String
deriving DecidableEq

/-- What a session shows and remembers. -/
structure SessionState where
  phase : SessionPhase
  /-- The latest question; it stays on show while the next one is awaited. -/
  question : Option Question
  /-- The lock of the question on show, while that is unanswered. -/
  lock : Option String
  /-- The question was answered or skipped, and the next one is awaited. -/
  isTransitioning : Bool
  /-- The concepts that the learner wants to see later. -/
  skipped : IdSet
  /-- The skipped concept that the last poll came back with. -/
  lastAutoSkipped : Option String
  errorMessage : Option String
deriving DecidableEq

namespace SessionState

/-- The state in which a session begins. -/
def initial : SessionState :=
  { phase := .loading, question := none, lock := none, isTransitioning := false,
    skipped := .empty, lastAutoSkipped := none, errorMessage := none }

instance : Inhabited SessionState := ⟨initial⟩

def isLocked (s : SessionState) : Bool :=
  s.lock.isSome

def conceptId? (s : SessionState) : Option String :=
  s.question.map fun q => q.candidate.concept.id

def phrasingId? (s : SessionState) : Option String :=
  s.question.map fun q => q.candidate.phrasing.id

/-- The session waits for its next question. -/
def awaitsQuestion (s : SessionState) : Bool :=
  s.phase = .loading || s.isTransitioning

end SessionState

/-- What can happen to a session. -/
inductive SessionEvent where
  | loadStart
  | loadEmpty
  | loadTimeout
  | questionReceived (q : Question)
  | reviewComplete
  /-- The learner asked to see a concept later. -/
  | skipConcept (id : String)
  /-- A poll came back with a skipped concept. -/
  | autoSkip (id : String)
  | clearSkipped
  | ignoreUpdate
deriving DecidableEq

def SessionEvent.name : SessionEvent → String
  | loadStart => "LoadStart"
  | loadEmpty => "LoadEmpty"
  | loadTimeout => "LoadTimeout"
  | questionReceived _ => "QuestionReceived"
  | reviewComplete => "ReviewComplete"
  | skipConcept _ => "SkipConcept"
  | autoSkip _ => "AutoSkip"
  | clearSkipped => "ClearSkipped"
  | ignoreUpdate => "IgnoreUpdate"

namespace SessionState

/-- The message of a session that waited too long for a question. -/
def timeoutMessage : String :=
  "Taking too long to load the next question. Refresh to try again."

/-- The state after an event. -/
def apply (s : SessionState) : SessionEvent → SessionState
  | .loadStart => { s with phase := .loading, isTransitioning := false }
  | .loadEmpty => {
      s with
      phase := .empty, question := none, lock := none, isTransitioning := false,
      skipped := .empty, lastAutoSkipped := none }
  | .loadTimeout =>
    { s with phase := .error, isTransitioning := false, errorMessage := some timeoutMessage }
  | .questionReceived q => {
      s with
      phase := .reviewing, question := some q, lock := some q.lock, isTransitioning := false,
      lastAutoSkipped := none, errorMessage := none }
  | .reviewComplete => { s with lock := none, isTransitioning := true }
  | .skipConcept id =>
    { s with skipped := s.skipped.insert id, lock := none, isTransitioning := true }
  | .autoSkip id => { s with lastAutoSkipped := some id, lock := none, isTransitioning := true }
  | .clearSkipped => { s with skipped := .empty, lastAutoSkipped := none }
  | .ignoreUpdate => s

def applyAll (s : SessionState) (events : List SessionEvent) : SessionState :=
  events.foldl apply s

end SessionState

end SpacedReview
