import SpacedReview.Session.Loop

/-!
# What a message does

Inversion lemmas for the messages of a session loop. `SessionState.Routed` lists everything that a
poll result can stand for, with the conditions under which it does. A command has an effect only
on `SessionState.unanswered?`, the question whose lock is held.
-/

namespace SpacedReview

namespace SessionState

/-- The question that is on show and waits for its answer. -/
def unanswered? (s : SessionState) : Option Question :=
  if s.isLocked then s.question else none

theorem unanswered?_eq_some {s : SessionState} {q : Question} :
    s.unanswered? = some q ↔ s.isLocked ∧ s.question = some q := by
  unfold unanswered?
  split
  · simp_all
  · simp_all

theorem unanswered?_of_unlocked {s : SessionState} (h : s.isLocked = false) :
    s.unanswered? = none := by
  simp [unanswered?, h]

/-- A poll result is looked at. -/
def IsOpen (s : SessionState) : Prop :=
  s.isLocked = false ∧ s.phase ≠ .error

/-- The events that a poll result stands for, case by case. -/
inductive Routed (s : SessionState) (lock : String) :
    ReviewCandidate → List SessionEvent → Prop where
  /-- The state is not open, the result is not known yet, or it is known that nothing is due. -/
  | ignored {c : ReviewCandidate} :
      (s.IsOpen → c = .pending ∨ (c = .empty ∧ s.phase = .empty)) → Routed s lock c [.ignoreUpdate]
  | emptied : s.IsOpen → s.phase ≠ .empty → Routed s lock .empty [.loadEmpty]
  | installed {c : FoundCandidate} : s.IsOpen → c.concept.id ∉ s.skipped →
      Routed s lock (.found c) [.questionReceived ⟨c, lock⟩]
  | exhausted {c : FoundCandidate} : s.IsOpen → c.concept.id ∈ s.skipped →
      s.lastAutoSkipped = some c.concept.id →
      Routed s lock (.found c) [.clearSkipped, .questionReceived ⟨c, lock⟩]
  | passedOver {c : FoundCandidate} : s.IsOpen → c.concept.id ∈ s.skipped →
      s.lastAutoSkipped ≠ some c.concept.id →
      Routed s lock (.found c) [.autoSkip c.concept.id]

theorem routed_route (s : SessionState) (c : ReviewCandidate) (lock : String) :
    s.Routed lock c (s.route c lock) := by
  unfold route
  split
  · rename_i hclosed
    refine .ignored fun hopen => ?_
    simp_all [IsOpen]
  · rename_i hopen
    have hopen : s.IsOpen := by simpa [IsOpen] using hopen
    cases c with
    | pending => exact .ignored fun _ => .inl rfl
    | empty =>
      by_cases hp : s.phase = .empty
      · simp only [hp, if_true]
        exact .ignored fun _ => .inr ⟨rfl, hp⟩
      · simp only [hp, if_false]
        exact .emptied hopen hp
    | found c =>
      by_cases hs : c.concept.id ∈ s.skipped
      · by_cases hl : s.lastAutoSkipped = some c.concept.id
        · simp only [isSkipped, hs, hl, decide_true, Bool.not_true, Bool.false_eq_true, if_false,
            if_true]
          exact .exhausted hopen hs hl
        · simp only [isSkipped, hs, hl, decide_true, Bool.not_true, Bool.false_eq_true, if_false]
          exact .passedOver hopen hs hl
      · simp only [isSkipped, hs, decide_false, Bool.not_false, if_true]
        exact .installed hopen hs

/-- A locked state ignores every poll result. -/
theorem route_of_locked {s : SessionState} (h : s.isLocked) (c : ReviewCandidate) (lock : String) :
    s.route c lock = [.ignoreUpdate] := by
  simp [route, h]

/-- A question that is unanswered after a poll result was so before or is the result's own. -/
theorem unanswered?_applyAll_route {s : SessionState} {c : ReviewCandidate} {lock : String}
    {q : Question} (h : (s.applyAll (s.route c lock)).unanswered? = some q) :
    s.unanswered? = some q ∨ c = .found q.candidate := by
  have hr := s.routed_route c lock
  generalize s.route c lock = events at h hr
  obtain ⟨hl, hq⟩ := unanswered?_eq_some.1 h
  cases hr with
  | ignored => exact .inl h
  | emptied => simp [applyAll, apply] at hq
  | installed | exhausted =>
    simp only [applyAll, List.foldl_cons, List.foldl_nil, apply, Option.some.injEq] at hq
    exact .inr (by rw [← hq])
  | passedOver => simp [applyAll, apply, isLocked] at hl

/-- A question that a poll result puts on show is the result's own, and it is unanswered. -/
theorem applyAll_route_of_mem {s : SessionState} {c : ReviewCandidate} {lock : String}
    {q : Question} (h : .questionReceived q ∈ s.route c lock) :
    c = .found q.candidate ∧ (s.applyAll (s.route c lock)).unanswered? = some q ∧
      (s.applyAll (s.route c lock)).lock = some q.lock ∧
      (s.applyAll (s.route c lock)).awaitsQuestion = false := by
  have hr := s.routed_route c lock
  generalize s.route c lock = events at h hr
  cases hr with
  | ignored | emptied | passedOver => simp at h
  | installed | exhausted =>
    obtain rfl : q = ⟨_, lock⟩ := by simpa using h
    simp [applyAll, apply, unanswered?, isLocked, awaitsQuestion]

end SessionState

namespace SessionLoop

variable {setup : SessionSetup} {l : SessionLoop}

/-! ## Commands -/

/-- The answer to a question as it is written. -/
def answerTo (setup : SessionSetup) (q : Question) (answer : String) (isCorrect : Bool)
    (elapsedMs : UInt64) : SubmitRequest :=
  { conceptId := q.candidate.concept.id, phrasingId := q.candidate.phrasing.id,
    answer, isCorrect, elapsedMs, sessionId := some setup.sessionId }

theorem onSubmit_of_unanswered {q : Question} (h : l.state.unanswered? = some q) (answer : String)
    (isCorrect : Bool) (elapsedMs : UInt64) :
    l.onSubmit setup answer isCorrect elapsedMs =
      ({ l with committing := l.committing.insert q.candidate.concept.id }.dispatch .reviewComplete,
        [.write (answerTo setup q answer isCorrect elapsedMs)]) := by
  obtain ⟨hl, hq⟩ := SessionState.unanswered?_eq_some.1 h
  simp [onSubmit, hl, hq, answerTo]

theorem onSubmit_of_none (h : l.state.unanswered? = none) (answer : String) (isCorrect : Bool)
    (elapsedMs : UInt64) : l.onSubmit setup answer isCorrect elapsedMs = (l, []) := by
  unfold onSubmit
  split
  · rename_i q hl hq
    simp [SessionState.unanswered?, hl, hq] at h
  · rfl

theorem onSkip_of_unanswered {q : Question} (h : l.state.unanswered? = some q) :
    l.onSkip = (l.dispatch (.skipConcept q.candidate.concept.id), []) := by
  obtain ⟨hl, hq⟩ := SessionState.unanswered?_eq_some.1 h
  simp [onSkip, hl, hq, SessionState.conceptId?]

theorem onSkip_of_none (h : l.state.unanswered? = none) : l.onSkip = (l, []) := by
  unfold onSkip
  split
  · rename_i id hl hid
    obtain ⟨q, hq, -⟩ := Option.map_eq_some_iff.1 hid
    simp [SessionState.unanswered?, hl, hq] at h
  · rfl

/-- The answer that a message makes the loop write. -/
def answer? (setup : SessionSetup) (l : SessionLoop) : SessionMessage → Option SubmitRequest
  | .command (.submit answer isCorrect elapsedMs) =>
    l.state.unanswered?.map fun q => answerTo setup q answer isCorrect elapsedMs
  | _ => none

/-! ## Poll updates -/

theorem accepts_iff {u : PollUpdate} :
    l.accepts u ↔ l.isReceiving ∧ u.view.generation = l.view.generation ∧
      ∀ id, u.candidate.conceptId? = some id → id ∉ l.committing := by
  unfold accepts isCommitting
  cases hc : u.candidate.conceptId? with
  | none => simp
  | some id => simp [and_assoc]

theorem onUpdate_of_accepts {u : PollUpdate} (h : l.accepts u) :
    (l.onUpdate setup u).1 =
      (l.state.route u.candidate (setup.lock l.locksUsed)).foldl dispatch l := by
  simp [onUpdate, h]

theorem onUpdate_of_not_accepts {u : PollUpdate} (h : l.accepts u = false) :
    l.onUpdate setup u = (l, []) := by
  simp [onUpdate, h]

theorem state_foldl_dispatch (es : List SessionEvent) (l : SessionLoop) :
    (es.foldl dispatch l).state = l.state.applyAll es := by
  induction es generalizing l with
  | nil => rfl
  | cons e es ih => exact ih (l.dispatch e)

theorem committing_foldl_dispatch (es : List SessionEvent) (l : SessionLoop) :
    (es.foldl dispatch l).committing = l.committing := by
  induction es generalizing l with
  | nil => rfl
  | cons e es ih => exact ih (l.dispatch e)

theorem isReceiving_foldl_dispatch (es : List SessionEvent) (l : SessionLoop) :
    (es.foldl dispatch l).isReceiving = l.isReceiving := by
  induction es generalizing l with
  | nil => rfl
  | cons e es ih => exact ih (l.dispatch e)

theorem generation_le_foldl_dispatch (es : List SessionEvent) (l : SessionLoop) :
    l.view.generation ≤ (es.foldl dispatch l).view.generation := by
  induction es generalizing l with
  | nil => exact Nat.le_refl _
  | cons e es ih => exact Nat.le_trans (PollView.generation_le_update ..) (ih (l.dispatch e))

theorem skips_view_foldl_dispatch {es : List SessionEvent} (h : l.view.skips = .ofState l.state) :
    (es.foldl dispatch l).view.skips = .ofState (es.foldl dispatch l).state := by
  induction es generalizing l with
  | nil => exact h
  | cons e es ih => exact ih (PollView.skips_update _ _ _)

/-! ## All messages -/

/-- The loop after a message, case by case. -/
inductive Stepped (setup : SessionSetup) (l : SessionLoop) :
    SessionMessage → SessionLoop → Prop where
  | overlooked {u : PollUpdate} : l.accepts u = false → Stepped setup l (.update u) l
  | routed {u : PollUpdate} : l.accepts u → Stepped setup l (.update u)
      ((l.state.route u.candidate (setup.lock l.locksUsed)).foldl dispatch l)
  | refused {c : SessionCommand} : l.state.unanswered? = none → Stepped setup l (.command c) l
  | submitted {q : Question} (answer : String) (isCorrect : Bool) (elapsedMs : UInt64) :
      l.state.unanswered? = some q →
      Stepped setup l (.command (.submit answer isCorrect elapsedMs))
        ({ l with committing := l.committing.insert q.candidate.concept.id }.dispatch
          .reviewComplete)
  | skipped {q : Question} : l.state.unanswered? = some q →
      Stepped setup l (.command .skip) (l.dispatch (.skipConcept q.candidate.concept.id))
  | written (r : CommitResult) : Stepped setup l (.written r) { l with
      committing := l.committing.erase r.conceptId
      view := l.view.succeed (.ofState l.state) }
  | gaveUp : Stepped setup l .watchdog { l.dispatch .loadTimeout with isReceiving := false }

theorem stepped_step (setup : SessionSetup) (l : SessionLoop) (m : SessionMessage) :
    l.Stepped setup m (l.step setup m).1 := by
  cases m with
  | update u =>
    rw [step]
    cases ha : l.accepts u with
    | false => rw [onUpdate_of_not_accepts ha]; exact .overlooked ha
    | true => rw [onUpdate_of_accepts ha]; exact .routed ha
  | command c =>
    cases c with
    | submit answer isCorrect elapsedMs =>
      rw [step]
      cases hq : l.state.unanswered? with
      | none => rw [onSubmit_of_none hq]; exact .refused hq
      | some q => rw [onSubmit_of_unanswered hq]; exact .submitted answer isCorrect elapsedMs hq
    | skip =>
      rw [step]
      cases hq : l.state.unanswered? with
      | none => rw [onSkip_of_none hq]; exact .refused hq
      | some q => rw [onSkip_of_unanswered hq]; exact .skipped hq
  | written r => exact .written r
  | watchdog => exact .gaveUp

/-- The update puts the question on show. -/
def Installs (setup : SessionSetup) (l : SessionLoop) (u : PollUpdate) (q : Question) : Prop :=
  l.accepts u ∧
    SessionEvent.questionReceived q ∈ l.state.route u.candidate (setup.lock l.locksUsed)

end SessionLoop

end SpacedReview
