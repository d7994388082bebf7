import SpacedReview.Proofs.Store.Writes
import SpacedReview.Review.Submission

/-!
# What an answer is planned to write

An answer is planned only for a phrasing of the concept that is not retired, and only if its next
review can be dated. The plan replaces the memory of the concept by the scheduled one and counts
one more attempt.

## Main statements

- `Parameters.update_eq_ok` — the memory after an answer
- `planReview_eq_ok` — the plan of an answer
- `submit_eq_ok`, `eq_of_submit_error` — how a submission ends
-/

namespace SpacedReview

/-- The record of an answer. -/
def SubmitRequest.interaction (r : SubmitRequest) (now : Instant) (id : String) : Interaction :=
  { id, conceptId := r.conceptId, phrasingId := r.phrasingId, userAnswer := r.answer,
    isCorrect := r.isCorrect, elapsedMs := r.elapsedMs, sessionId := r.sessionId,
    attemptedAt := now }

theorem Parameters.update_eq_ok {p : Parameters} {m m' : MemoryState} {rating : Rating}
    {now : Instant} :
    p.update m rating now = .ok m' ↔
      ∃ due, now.after? (p.transition m.state rating (p.nextStability m rating now)).2 = some due ∧
        { state := (p.transition m.state rating (p.nextStability m rating now)).1
          stability := p.nextStability m rating now
          difficulty := p.nextDifficulty m rating
          reps := m.reps + 1
          lapses := if m.state = .review ∧ rating = .again then m.lapses + 1 else m.lapses
          lastReview := some now
          nextReview := due } = m' := by
  unfold update
  simp only
  cases now.after? (p.transition m.state rating (p.nextStability m rating now)).2 with
  | none => simp
  | some due => simp

theorem Engine.schedule_eq_ok {e : Engine} {c : Concept} {correct : Bool} {now : Instant}
    {result : ScheduleResult} :
    e.schedule c correct now = .ok result ↔
      ∃ m, e.update c.memory (.ofCorrect correct) now = .ok m ∧
        ScheduleResult.mk m (.ofCorrect correct) m.nextReview m.nextReview m.state
          (UInt32.ofNat ((m.nextReview.since now).tdiv 86400000000000).toNat) = result := by
  simp [schedule, bind_eq_ok, pure, Except.pure]

theorem planReview_eq_ok {e : Engine} {r : SubmitRequest} {now : Instant} {id : String}
    {c : Concept} {p : Phrasing} {patch : ReviewPatch} {outcome : SubmitOutcome}
    (hc : c.id = r.conceptId) (hp : p.id = r.phrasingId) :
    planReview e r now id c p = .ok (patch, outcome) ↔
      p.conceptId = r.conceptId ∧ (p.archivedAt = none ∧ p.deletedAt = none) ∧
      ∃ result, e.schedule c r.isCorrect now = .ok result ∧
        ReviewPatch.mk r.conceptId result.memory r.phrasingId (countUp p.attemptCount) now
          (r.interaction now id) = patch ∧
        SubmitOutcome.mk result.nextReview result.scheduledDays result.lifecycleState id =
          outcome := by
  simp only [planReview, ite_throw_eq_ok, bind_eq_ok, mapError_eq_ok, pure, Except.pure, hc, hp,
    ne_eq, not_not, Bool.not_eq_true, Phrasing.isRetired_eq_false, Except.ok.injEq, Prod.mk.injEq,
    SubmitRequest.interaction]

/-! ## Submissions -/

section Submit

variable {σ : Type} [ReviewStore σ] {e : Engine} {store next : σ} {r : SubmitRequest}
  {now : Instant} {id : String}

/-- A submission is taken if both records are found and what is planned for them is recorded. -/
theorem submit_eq_ok {outcome : SubmitOutcome} :
    submit e store r now id = (next, .ok outcome) ↔
      ∃ c p patch, ReviewStore.concept? store r.conceptId = .ok (some c) ∧
        ReviewStore.phrasing? store r.phrasingId = .ok (some p) ∧
        planReview e r now id c p = .ok (patch, outcome) ∧
        ReviewStore.record store patch = .ok next := by
  unfold submit
  rcases ReviewStore.concept? store r.conceptId with err | _ | c
  · simp
  · simp
  · rcases ReviewStore.phrasing? store r.phrasingId with err | _ | p
    · simp
    · simp
    · rcases hplan : planReview e r now id c p with err | ⟨patch, planned⟩
      · simp [hplan]
      · rcases hrecord : ReviewStore.record store patch with err | written
        · simp [hplan, hrecord]
        · simp only [hplan, hrecord, Prod.mk.injEq, Except.ok.injEq, Option.some.injEq]
          constructor
          · rintro ⟨rfl, rfl⟩
            exact ⟨c, p, patch, rfl, rfl, hplan, hrecord⟩
          · rintro ⟨c', p', patch', rfl, rfl, hplan', hrecord'⟩
            rw [hplan, Except.ok.injEq, Prod.mk.injEq] at hplan'
            obtain ⟨rfl, rfl⟩ := hplan'
            rw [hrecord, Except.ok.injEq] at hrecord'
            exact ⟨hrecord', rfl⟩

/-- A submission that fails leaves the store as it was. -/
theorem eq_of_submit_error {err : SubmitError} (h : submit e store r now id = (next, .error err)) :
    next = store := by
  unfold submit at h
  split at h
  · exact (Prod.mk.inj h).1.symm
  · exact (Prod.mk.inj h).1.symm
  · split at h
    · exact (Prod.mk.inj h).1.symm
    · exact (Prod.mk.inj h).1.symm
    · split at h
      · exact (Prod.mk.inj h).1.symm
      · split at h
        · simp at h
        · exact (Prod.mk.inj h).1.symm

end Submit

end SpacedReview
