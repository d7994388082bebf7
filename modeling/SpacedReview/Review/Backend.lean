import SpacedReview.Review.Candidate
import SpacedReview.Review.Submission

/-!
# The queue behind a session

A session asks a review queue for the next candidate and hands it the learner's answers.
`ReviewBackend` is all that a session knows of the queue; `ReviewBackend.service` is the queue over
a store.
-/

namespace SpacedReview

/-- What a session asks of a review queue. -/
structure ReviewBackend (σ : Type) where
  /-- The candidate to ask next, given the concepts that are put off. -/
  next : σ → Instant → List String → Except ReviewError ReviewCandidate
  /-- Takes an answer, whose interaction gets the name. -/
  submit : σ → SubmitRequest → Instant → String → σ × Except SubmitError SubmitOutcome

namespace ReviewBackend

/-- The review queue over a store. -/
def service {σ : Type} [ReviewStore σ] (e : Engine) : ReviewBackend σ where
  next := nextCandidate e
  submit := SpacedReview.submit e

/-- The review queue always knows whether something is due. -/
def NeverPending {σ : Type} (backend : ReviewBackend σ) : Prop :=
  ∀ store now putOff, backend.next store now putOff ≠ .ok .pending

theorem neverPending_service {σ : Type} [ReviewStore σ] (e : Engine) :
    (service e : ReviewBackend σ).NeverPending := by
  intro store now putOff
  show nextCandidate e store now putOff ≠ .ok .pending
  unfold nextCandidate
  cases (ReviewStore.due store now none).mapError ReviewError.store with
  | error _ => simp [bind, Except.bind]
  | ok due => exact firstCandidate_ne_pending e store now _

end ReviewBackend

end SpacedReview
