import SpacedReview.Review.Basic

/-!
# Submitting an answer

An answer is written in three store operations: the concept and then the phrasing are looked up,
and the change is recorded. `Submission` is the state between them, so that the operations of
several submissions can follow each other in any order; `submit` is a submission whose three
operations nothing comes between.
-/

namespace SpacedReview

/-- How a submission failed. -/
inductive SubmitError where
  | review (e : ReviewError)
  /-- The answer cannot be scheduled; nothing was written. -/
  | schedule (e : ScheduleError)
deriving Repr, DecidableEq

/-- One more, unless the counter is at its end. -/
def countUp (n : UInt32) : UInt32 :=
  if n = 0xFFFFFFFF then n else n + 1

/-- What an answer to a phrasing of a concept writes, and what it reports. -/
def planReview (e : Engine) (r : SubmitRequest) (now : Instant) (interactionId : String)
    (c : Concept) (p : Phrasing) : Except SubmitError (ReviewPatch × SubmitOutcome) := do
  if p.conceptId ≠ c.id then throw (.review (.phrasingMismatch c.id p.id))
  if p.isRetired then throw (.review (.phrasingUnavailable p.id))
  let result ← (e.schedule c r.isCorrect now).mapError .schedule
  return (
    { conceptId := c.id, memory := result.memory, phrasingId := p.id,
      attemptCount := countUp p.attemptCount, lastAttemptedAt := now,
      interaction := {
        id := interactionId, conceptId := c.id, phrasingId := p.id, userAnswer := r.answer,
        isCorrect := r.isCorrect, elapsedMs := r.elapsedMs, sessionId := r.sessionId,
        attemptedAt := now } },
    { nextReview := result.nextReview, scheduledDays := result.scheduledDays,
      newState := result.lifecycleState, interactionId })

/-- A submission between two store operations. -/
inductive Submission where
  /-- The concept is looked up next. -/
  | atConcept
  /-- The phrasing is looked up next. -/
  | atPhrasing (c : Concept)
  /-- The change is recorded next. -/
  | atRecord (patch : ReviewPatch) (outcome : SubmitOutcome)
  | done (result : Except SubmitError SubmitOutcome)

namespace Submission

/-- What the look-up of the concept leads to. -/
def afterConcept (r : SubmitRequest) : Except StoreError (Option Concept) → Submission
  | .error e => done (.error (.review (.store e)))
  | .ok none => done (.error (.review (.conceptNotFound r.conceptId)))
  | .ok (some c) => atPhrasing c

/-- What the look-up of the phrasing leads to. -/
def afterPhrasing (e : Engine) (r : SubmitRequest) (now : Instant) (interactionId : String)
    (c : Concept) : Except StoreError (Option Phrasing) → Submission
  | .error e => done (.error (.review (.store e)))
  | .ok none => done (.error (.review (.phrasingNotFound r.phrasingId)))
  | .ok (some p) =>
    match planReview e r now interactionId c p with
    | .error e => done (.error e)
    | .ok (patch, outcome) => atRecord patch outcome

/-- The next store operation of a submission. -/
def step {σ : Type} [ReviewStore σ] (e : Engine) (r : SubmitRequest) (now : Instant)
    (interactionId : String) (store : σ) : Submission → σ × Submission
  | atConcept => (store, afterConcept r (ReviewStore.concept? store r.conceptId))
  | atPhrasing c =>
    (store, afterPhrasing e r now interactionId c (ReviewStore.phrasing? store r.phrasingId))
  | atRecord patch outcome =>
    match ReviewStore.record store patch with
    | .ok store => (store, done (.ok outcome))
    | .error e => (store, done (.error (.review (.store e))))
  | done result => (store, done result)

/-- The result of a submission that has ended. -/
def result? : Submission → Option (Except SubmitError SubmitOutcome)
  | done result => some result
  | _ => none

/-- All store operations of a submission, one after the other. -/
def run {σ : Type} [ReviewStore σ] (e : Engine) (r : SubmitRequest) (now : Instant)
    (interactionId : String) (store : σ) (s : Submission) : σ × Submission :=
  let (store, s) := s.step e r now interactionId store
  let (store, s) := s.step e r now interactionId store
  s.step e r now interactionId store

end Submission

/-- Grades an answer and writes what it changes, or fails and writes nothing. -/
def submit {σ : Type} [ReviewStore σ] (e : Engine) (store : σ) (r : SubmitRequest)
    (now : Instant) (interactionId : String) : σ × Except SubmitError SubmitOutcome :=
  match ReviewStore.concept? store r.conceptId with
  | .error err => (store, .error (.review (.store err)))
  | .ok none => (store, .error (.review (.conceptNotFound r.conceptId)))
  | .ok (some c) =>
    match ReviewStore.phrasing? store r.phrasingId with
    | .error err => (store, .error (.review (.store err)))
    | .ok none => (store, .error (.review (.phrasingNotFound r.phrasingId)))
    | .ok (some p) =>
      match planReview e r now interactionId c p with
      | .error err => (store, .error err)
      | .ok (patch, outcome) =>
        match ReviewStore.record store patch with
        | .ok store => (store, .ok outcome)
        | .error err => (store, .error (.review (.store err)))

/-- Three operations without another one between them are a whole submission. -/
theorem Submission.run_atConcept {σ : Type} [ReviewStore σ] (e : Engine) (r : SubmitRequest)
    (now : Instant) (interactionId : String) (store : σ) :
    Submission.run e r now interactionId store .atConcept =
      ((submit e store r now interactionId).1, .done (submit e store r now interactionId).2) := by
  unfold Submission.run submit
  rcases hc : ReviewStore.concept? store r.conceptId with err | _ | c
  · simp [Submission.step, Submission.afterConcept, hc]
  · simp [Submission.step, Submission.afterConcept, hc]
  · rcases hp : ReviewStore.phrasing? store r.phrasingId with err | _ | p
    · simp [Submission.step, Submission.afterConcept, Submission.afterPhrasing, hc, hp]
    · simp [Submission.step, Submission.afterConcept, Submission.afterPhrasing, hc, hp]
    · rcases hplan : planReview e r now interactionId c p with err | ⟨patch, outcome⟩
      · simp [Submission.step, Submission.afterConcept, Submission.afterPhrasing, hc, hp, hplan]
      · rcases hrec : ReviewStore.record store patch with err | store' <;>
          simp [Submission.step, Submission.afterConcept, Submission.afterPhrasing, hc, hp,
            hplan, hrec]

end SpacedReview
