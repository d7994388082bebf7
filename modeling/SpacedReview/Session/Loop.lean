import SpacedReview.Session.Poller
import SpacedReview.Session.Routing

/-!
# The session loop

The loop of a session handles one message after the other: poll updates, the learner's commands,
the results of writes, and the watchdog. It keeps the state of the session, publishes a new poll
view whenever the skipped concepts change or a write ends, and remembers which concepts have a
write on its way, so that their stale snapshots are not shown.

## Main definitions

- `SessionLoop` — what the loop keeps
- `SessionMessage`, `SessionEffect` — what it handles and what it does beyond its own state
- `SessionLoop.step` — the effect of one message
- `SessionLoop.arm` — the deadline of the watchdog
-/

namespace SpacedReview

inductive SessionCommand where
  | submit (answer : String) (isCorrect : Bool) (elapsedMs : UInt64)
  | skip
deriving DecidableEq

structure CommitResult where
  conceptId : String
  phrasingId : String
  /-- What the answer changed, or the message of the error. -/
  result : Except String SubmitOutcome

/-- News for whoever presents the session. -/
inductive SessionNotice where
  /-- An answer was written while its question was still on show. -/
  | committed (conceptId phrasingId : String) (outcome : SubmitOutcome)
  /-- An answer could not be written. -/
  | submitFailed (conceptId phrasingId message : String)
  /-- The session has given up waiting for a question. -/
  | timedOut
  /-- Every due concept was skipped, and the skipped ones are asked again. -/
  | exhausted (conceptId : String)
deriving DecidableEq

/-- What a session is started with. -/
structure SessionSetup where
  /-- The name under which the session's answers are logged. -/
  sessionId : String
  /-- How long the session waits for a question, in milliseconds. -/
  loadingTimeout : Nat
  /-- The locks of the session's questions in the order in which they are used. -/
  lock : Nat → String

/-- What the loop of a session keeps. -/
structure SessionLoop where
  state : SessionState
  /-- The poll view that was published last. -/
  view : PollView
  /-- The concepts that have a write on its way. -/
  committing : IdSet
  /-- When the session gives up waiting for a question. -/
  deadline : Option Nat
  /-- Poll updates are still received. -/
  isReceiving : Bool
  /-- The number of locks that were used. -/
  locksUsed : Nat
  /-- The number of states that were published. -/
  published : Nat
deriving DecidableEq

inductive SessionMessage where
  | update (u : PollUpdate)
  | command (c : SessionCommand)
  | written (r : CommitResult)
  | watchdog

/-- What the loop does beyond its own state. -/
inductive SessionEffect where
  | notify (n : SessionNotice)
  /-- An answer is written. -/
  | write (r : SubmitRequest)
deriving DecidableEq

namespace SessionLoop

def initial : SessionLoop :=
  { state := .initial, view := .first, committing := .empty, deadline := none,
    isReceiving := true, locksUsed := 0, published := 0 }

/-- The loop after an event, which publishes the state, and the view if that has changed. -/
def dispatch (l : SessionLoop) (e : SessionEvent) : SessionLoop :=
  let state := l.state.apply e
  { l with
    state, view := l.view.update (.ofState state) false
    locksUsed := if e.usesLock then l.locksUsed + 1 else l.locksUsed
    published := l.published + 1 }

theorem state_dispatch (l : SessionLoop) (e : SessionEvent) :
    (l.dispatch e).state = l.state.apply e :=
  rfl

theorem committing_dispatch (l : SessionLoop) (e : SessionEvent) :
    (l.dispatch e).committing = l.committing :=
  rfl

theorem isReceiving_dispatch (l : SessionLoop) (e : SessionEvent) :
    (l.dispatch e).isReceiving = l.isReceiving :=
  rfl

/-- The loop at the start of its session. -/
def start : SessionLoop :=
  initial.dispatch .loadStart

/-- The loop with a deadline while it waits for a question and with none otherwise. A deadline
    stays where it is until the question arrives. -/
def arm (setup : SessionSetup) (now : Nat) (l : SessionLoop) : SessionLoop :=
  match l.state.awaitsQuestion, l.deadline with
  | true, none => { l with deadline := some (now + setup.loadingTimeout) }
  | false, some _ => { l with deadline := none }
  | _, _ => l

/-- A loop that waits for its next message has a deadline exactly while it waits for a question. -/
theorem isSome_deadline_arm (setup : SessionSetup) (now : Nat) (l : SessionLoop) :
    (l.arm setup now).deadline.isSome = l.state.awaitsQuestion := by
  unfold arm
  cases hw : l.state.awaitsQuestion <;> cases hd : l.deadline <;> simp [hd]

/-- A deadline is all that is set. -/
theorem arm_eq (setup : SessionSetup) (now : Nat) (l : SessionLoop) :
    l.arm setup now = { l with deadline := (l.arm setup now).deadline } := by
  unfold arm
  split <;> rfl

theorem state_arm (setup : SessionSetup) (now : Nat) (l : SessionLoop) :
    (l.arm setup now).state = l.state := by
  rw [arm_eq]

theorem view_arm (setup : SessionSetup) (now : Nat) (l : SessionLoop) :
    (l.arm setup now).view = l.view := by
  rw [arm_eq]

theorem committing_arm (setup : SessionSetup) (now : Nat) (l : SessionLoop) :
    (l.arm setup now).committing = l.committing := by
  rw [arm_eq]

theorem isReceiving_arm (setup : SessionSetup) (now : Nat) (l : SessionLoop) :
    (l.arm setup now).isReceiving = l.isReceiving := by
  rw [arm_eq]

/-- The notice that goes with an event of a poll update. -/
def noticesOf (c : ReviewCandidate) : SessionEvent → List SessionEffect
  | .clearSkipped =>
    match c.conceptId? with
    | some id => [.notify (.exhausted id)]
    | none => []
  | _ => []

/-- The candidate's concept has a write on its way. -/
def isCommitting (l : SessionLoop) (c : ReviewCandidate) : Bool :=
  match c.conceptId? with
  | some id => id ∈ l.committing
  | none => false

/-- A poll update counts if it was fetched under the view that was published last and no write
    for its concept is on its way. -/
def accepts (l : SessionLoop) (u : PollUpdate) : Bool :=
  l.isReceiving && u.view.generation = l.view.generation && !l.isCommitting u.candidate

def onUpdate (setup : SessionSetup) (l : SessionLoop) (u : PollUpdate) :
    SessionLoop × List SessionEffect :=
  if l.accepts u then
    let events := l.state.route u.candidate (setup.lock l.locksUsed)
    (events.foldl dispatch l, events.flatMap (noticesOf u.candidate))
  else (l, [])

/-- The effect of an answer: it is written, and the next question is awaited. Without an
    unanswered question it has none. -/
def onSubmit (setup : SessionSetup) (l : SessionLoop) (answer : String) (isCorrect : Bool)
    (elapsedMs : UInt64) : SessionLoop × List SessionEffect :=
  match l.state.isLocked, l.state.question with
  | true, some q =>
    let request : SubmitRequest := {
      conceptId := q.candidate.concept.id, phrasingId := q.candidate.phrasing.id,
      answer, isCorrect, elapsedMs, sessionId := some setup.sessionId }
    ({ l with committing := l.committing.insert request.conceptId }.dispatch .reviewComplete,
      [.write request])
  | _, _ => (l, [])

/-- The effect of a skip. Without an unanswered question it has none. -/
def onSkip (l : SessionLoop) : SessionLoop × List SessionEffect :=
  match l.state.isLocked, l.state.conceptId? with
  | true, some id => (l.dispatch (.skipConcept id), [])
  | _, _ => (l, [])

/-- The notice of a write that has ended: a failure always, a success only while the question is
    still on show. -/
def commitNotice (l : SessionLoop) (r : CommitResult) : List SessionEffect :=
  match r.result with
  | .ok outcome =>
    if l.state.phrasingId? = some r.phrasingId then
      [.notify (.committed r.conceptId r.phrasingId outcome)]
    else []
  | .error message => [.notify (.submitFailed r.conceptId r.phrasingId message)]

/-- The effect of the end of a write. A new view is published in any case, since the queue may
    have changed. -/
def onWritten (l : SessionLoop) (r : CommitResult) : SessionLoop × List SessionEffect :=
  ({ l with
      committing := l.committing.erase r.conceptId
      view := l.view.update (.ofState l.state) true },
    l.commitNotice r)

/-- The effect of the watchdog: the session gives up, and no update is received any more. -/
def onWatchdog (l : SessionLoop) : SessionLoop × List SessionEffect :=
  ({ l.dispatch .loadTimeout with isReceiving := false }, [.notify .timedOut])

def step (setup : SessionSetup) (l : SessionLoop) :
    SessionMessage → SessionLoop × List SessionEffect
  | .update u => l.onUpdate setup u
  | .command (.submit answer isCorrect elapsedMs) => l.onSubmit setup answer isCorrect elapsedMs
  | .command .skip => l.onSkip
  | .written r => l.onWritten r
  | .watchdog => l.onWatchdog

end SessionLoop

end SpacedReview
