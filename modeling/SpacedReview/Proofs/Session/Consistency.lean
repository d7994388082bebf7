import SpacedReview.Proofs.Session.Messages

/-!
# Consistent session states

`SessionState.Reachable` are the states that a session comes through, whatever its polls answer
and whatever the learner does. Few events keep a state in order in every phase, but each of them is
only let happen where it does: `SessionState.Consistent` holds of every reachable state.

## Main definitions

- `SessionState.Consistent` — how the lock, the phase, the question and the skipped concepts hang
  together
- `SessionState.Reachable` — the states of a session

## Main statements

- `SessionState.consistent_of_reachable` — every state of a session is consistent
-/

namespace SpacedReview

/-- A concept that was never reviewed as a candidate, with its only phrasing. -/
def FoundCandidate.unreviewed (id : String) : FoundCandidate :=
  let now : Instant := ⟨0, 0, by decide, by decide, by decide, by decide⟩
  { concept := .create id id (.fresh now) now, phrasing := .create id id id id now,
    phrasingStats := some ⟨1, 1⟩, selectionReason := .leastSeen,
    retrievability := unreviewedRecall, interactionHistory := [] }

namespace SessionState

/-- How the parts of a session state hang together. -/
structure Consistent (s : SessionState) : Prop where
  /-- The lock is held exactly while the question on show is unanswered. -/
  isLocked_iff : s.isLocked ↔ s.phase = .reviewing ∧ s.isTransitioning = false
  /-- The lock is the one of the question on show. -/
  lock_eq : s.isLocked → ∃ q, s.question = some q ∧ s.lock = some q.lock
  /-- Nothing has happened yet while the first question is awaited. -/
  eq_initial : s.phase = .loading → s = initial
  /-- Nothing is left over when nothing is due. -/
  of_empty : s.phase = .empty → s.question = none ∧ s.lock = none ∧ s.isTransitioning = false ∧
    s.skipped = .empty ∧ s.lastAutoSkipped = none
  question_isSome : s.phase = .reviewing → s.question.isSome
  /-- What was passed over is skipped, and the next question is awaited or never comes. -/
  of_lastAutoSkipped : ∀ id, s.lastAutoSkipped = some id → id ∈ s.skipped ∧ s.isLocked = false
  /-- An unanswered question is not about a skipped concept. -/
  not_mem_skipped : s.isLocked → ∀ id, s.conceptId? = some id → id ∉ s.skipped
  errorMessage_isSome_iff : s.errorMessage.isSome ↔ s.phase = .error
  /-- A session that has given up awaits nothing. -/
  of_error : s.phase = .error → s.isTransitioning = false

namespace Consistent

variable {s : SessionState}

theorem lastAutoSkipped_eq_none (h : s.Consistent) (hl : s.isLocked) :
    s.lastAutoSkipped = none := by
  cases hm : s.lastAutoSkipped with
  | none => rfl
  | some id =>
    have := (h.of_lastAutoSkipped id hm).2
    simp [hl] at this

/-- A session that awaits a question holds no lock. -/
theorem isLocked_of_awaitsQuestion (h : s.Consistent) (hw : s.awaitsQuestion) :
    s.isLocked = false := by
  cases hl : s.isLocked with
  | false => rfl
  | true =>
    obtain ⟨hp, ht⟩ := h.isLocked_iff.1 hl
    simp [awaitsQuestion, hp, ht] at hw

/-- A session that awaits a question looks at poll results. -/
theorem isOpen_of_awaitsQuestion (h : s.Consistent) (hw : s.awaitsQuestion) : s.IsOpen := by
  refine ⟨h.isLocked_of_awaitsQuestion hw, fun hp => ?_⟩
  simp [awaitsQuestion, hp, h.of_error hp] at hw

/-- Only a session that shows a question and awaits the next one has skipped concepts and is
    open. -/
theorem phase_eq_reviewing (h : s.Consistent) {id : String} (hid : id ∈ s.skipped)
    (hp : s.phase ≠ .error) : s.phase = .reviewing := by
  cases hphase : s.phase with
  | loading =>
    rw [h.eq_initial hphase] at hid
    exact absurd hid IdSet.not_mem_empty
  | empty =>
    rw [(h.of_empty hphase).2.2.2.1] at hid
    exact absurd hid IdSet.not_mem_empty
  | reviewing => rfl
  | error => exact absurd hphase hp

/-! ## Events -/

theorem initial : SessionState.initial.Consistent := by
  constructor <;> simp [SessionState.initial, isLocked]

theorem apply_loadEmpty (h : s.Consistent) (ho : s.IsOpen) : (s.apply .loadEmpty).Consistent := by
  have herror : s.errorMessage = none := by
    simpa [ho.2] using mt h.errorMessage_isSome_iff.1 ho.2
  constructor <;> simp [apply, isLocked, herror]

theorem apply_questionReceived {q : Question} (hq : q.candidate.concept.id ∉ s.skipped) :
    (s.apply (.questionReceived q)).Consistent := by
  constructor <;> simp [apply, isLocked, conceptId?, hq]

/-- The question on show stays when its lock is given up and more concepts are skipped. -/
theorem giveUpLock (h : s.Consistent) (hl : s.isLocked) (skipped : IdSet) :
    Consistent { s with skipped, lock := none, isTransitioning := true } := by
  obtain ⟨hp, -⟩ := h.isLocked_iff.1 hl
  have hm := h.lastAutoSkipped_eq_none hl
  have hq := h.question_isSome hp
  have herror := h.errorMessage_isSome_iff
  constructor <;> simp_all [isLocked]

theorem apply_reviewComplete (h : s.Consistent) (hl : s.isLocked) :
    (s.apply .reviewComplete).Consistent :=
  h.giveUpLock hl s.skipped

theorem apply_skipConcept (h : s.Consistent) (hl : s.isLocked) (id : String) :
    (s.apply (.skipConcept id)).Consistent :=
  h.giveUpLock hl (s.skipped.insert id)

theorem apply_autoSkip (h : s.Consistent) (ho : s.IsOpen) {id : String} (hid : id ∈ s.skipped) :
    (s.apply (.autoSkip id)).Consistent := by
  have hp := h.phase_eq_reviewing hid ho.2
  have hq := h.question_isSome hp
  have herror := h.errorMessage_isSome_iff
  constructor <;> simp_all [apply, isLocked]

theorem apply_loadTimeout (h : s.Consistent) (hw : s.awaitsQuestion) :
    (s.apply .loadTimeout).Consistent := by
  have hl := h.isLocked_of_awaitsQuestion hw
  have hm := h.of_lastAutoSkipped
  constructor <;> simp_all [apply, isLocked]

/-! ## Messages -/

/-- A poll result keeps a state consistent, whatever it is. -/
theorem applyAll_route (h : s.Consistent) (c : ReviewCandidate) (lock : String) :
    (s.applyAll (s.route c lock)).Consistent := by
  have hr := s.routed_route c lock
  generalize s.route c lock = events at hr
  cases hr with
  | ignored => exact h
  | emptied ho => exact h.apply_loadEmpty ho
  | installed _ hs => exact apply_questionReceived hs
  | exhausted => exact apply_questionReceived IdSet.not_mem_empty
  | passedOver ho hs => exact h.apply_autoSkip ho hs

theorem onSubmit {l : SessionLoop} (h : l.state.Consistent) (setup : SessionSetup)
    (answer : String) (isCorrect : Bool) (elapsedMs : UInt64) :
    (l.onSubmit setup answer isCorrect elapsedMs).1.state.Consistent := by
  cases hq : l.state.unanswered? with
  | none =>
    rw [SessionLoop.onSubmit_of_none hq]
    exact h
  | some q =>
    rw [SessionLoop.onSubmit_of_unanswered hq]
    exact h.apply_reviewComplete (unanswered?_eq_some.1 hq).1

theorem onSkip {l : SessionLoop} (h : l.state.Consistent) : l.onSkip.1.state.Consistent := by
  cases hq : l.state.unanswered? with
  | none =>
    rw [SessionLoop.onSkip_of_none hq]
    exact h
  | some q =>
    rw [SessionLoop.onSkip_of_unanswered hq]
    exact h.apply_skipConcept (unanswered?_eq_some.1 hq).1 q.candidate.concept.id

end Consistent

/-! ## The states of a session -/

/-- The states of a session: what comes of the initial state by its own start, by poll results and
    commands of any kind, and by giving up while a question is awaited. -/
inductive Reachable : SessionState → Prop where
  | start : Reachable (initial.apply .loadStart)
  | poll {s : SessionState} (c : ReviewCandidate) (lock : String) :
      Reachable s → Reachable (s.applyAll (s.route c lock))
  | submit {l : SessionLoop} (setup : SessionSetup) (answer : String) (isCorrect : Bool)
      (elapsedMs : UInt64) :
      Reachable l.state → Reachable (l.onSubmit setup answer isCorrect elapsedMs).1.state
  | skip {l : SessionLoop} : Reachable l.state → Reachable l.onSkip.1.state
  | timeOut {l : SessionLoop} :
      Reachable l.state → l.state.awaitsQuestion → Reachable l.onWatchdog.1.state

theorem consistent_of_reachable {s : SessionState} (h : s.Reachable) : s.Consistent := by
  induction h with
  | start => exact .initial
  | poll c lock _ ih => exact ih.applyAll_route c lock
  | submit setup answer isCorrect elapsedMs _ ih =>
    exact ih.onSubmit setup answer isCorrect elapsedMs
  | skip _ ih => exact ih.onSkip
  | timeOut _ hw ih => exact ih.apply_loadTimeout hw

/-- The only due concept was skipped and has come back. -/
theorem consistent_of_passedOver :
    let c := FoundCandidate.unreviewed "c"
    let shown := initial.applyAll (initial.route (.found c) "lock")
    let skipped := { SessionLoop.initial with state := shown }.onSkip.1
    let s := skipped.state.applyAll (skipped.state.route (.found c) "unused")
    s.Reachable ∧ s.lastAutoSkipped = some "c" ∧ s.Consistent := by
  intro c shown skipped s
  have hshown : shown.Reachable := .poll (.found c) "lock" .start
  have hskipped : skipped.state.Reachable :=
    .skip (l := { SessionLoop.initial with state := shown }) hshown
  have hs : s.Reachable := .poll (.found c) "unused" hskipped
  exact ⟨hs, by decide, consistent_of_reachable hs⟩

end SessionState

end SpacedReview
