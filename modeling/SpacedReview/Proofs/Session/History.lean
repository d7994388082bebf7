import SpacedReview.Proofs.Session.InFlight

/-!
# Histories

A running session only knows what it is doing now. `RunningSession.observed` collects what there
was to see in a run: the answers that the learner gave, the attempts to write them, and the updates
that the poller forwarded.

## Main definitions

- `RunningSession.observed` — what was seen in a run
- `RunningSession.answers`, `RunningSession.attempts`, `RunningSession.forwards` — the answers, the
  attempts to write them and the forwarded updates of a run
- `RunningSession.replay` — the review queue after some attempts

## Main statements

- `RunningSession.Sound.about_answers` — every answer has had its attempt or still waits for it
- `RunningSession.store_eq_replay` — without changes from outside, the attempts make the store
-/

namespace SpacedReview

def SessionAction.beginsFetch {σ : Type} : SessionAction σ → Bool
  | startFetch | startViewFetch => true
  | _ => false

def SessionAction.isWritten {σ : Type} : SessionAction σ → Bool
  | written _ => true
  | _ => false

def SessionAction.isEdit {σ : Type} : SessionAction σ → Bool
  | edit _ => true
  | _ => false

/-- An attempt to write an answer. -/
structure Attempt where
  request : SubmitRequest
  date : Instant
  /-- The name of the interaction, if the answer reached the review queue. -/
  interactionId : Option String

namespace RunningSession

variable {σ : Type} {s : RunningSession σ}

/-- What is seen of some actions, one after the other. -/
def observed {α : Type} (see : RunningSession σ → SessionAction σ → List α) :
    RunningSession σ → List (SessionAction σ) → List α
  | _, [] => []
  | s, a :: as => see s a ++ observed see (s.act a) as

/-- The answer that the learner gives with an action. -/
def answerSeen (s : RunningSession σ) : SessionAction σ → List SubmitRequest
  | .command c => (s.loop.answer? s.setup (.command c)).toList
  | _ => []

/-- The attempt to write an answer that an action is. -/
def attemptSeen (s : RunningSession σ) : SessionAction σ → List Attempt
  | .write i interactionId =>
    (s.writes[i]?.map fun w => ⟨w.request, w.date, some interactionId⟩).toList
  | .failWrite i _ => (s.writes[i]?.map fun w => ⟨w.request, w.date, none⟩).toList
  | _ => []

/-- The update that the poller forwards with an action. -/
def forwardSeen (s : RunningSession σ) : SessionAction σ → List PollUpdate
  | .finishFetch =>
    match s.poller.stage with
    | .answered v o => (news? s.poller.lastForwarded v o).toList
    | _ => []
  | _ => []

def answers (s : RunningSession σ) (as : List (SessionAction σ)) : List SubmitRequest :=
  s.observed answerSeen as

def attempts (s : RunningSession σ) (as : List (SessionAction σ)) : List Attempt :=
  s.observed attemptSeen as

def forwards (s : RunningSession σ) (as : List (SessionAction σ)) : List PollUpdate :=
  s.observed forwardSeen as

/-- What a review queue holds after some attempts. Those that failed on their way change
    nothing. -/
def replay (backend : ReviewBackend σ) (store : σ) (attempts : List Attempt) : σ :=
  attempts.foldl (fun store a =>
    match a.interactionId with
    | some interactionId => (backend.submit store a.request a.date interactionId).1
    | none => store) store

theorem act_of_act? {a : SessionAction σ} {t : RunningSession σ} (h : s.act? a = some t) :
    s.act a = t := by
  rw [act, h]
  rfl

theorem observed_append {α : Type} (see : RunningSession σ → SessionAction σ → List α)
    {as : List (SessionAction σ)} {t : RunningSession σ} (h : s.acts? as = some t)
    (bs : List (SessionAction σ)) :
    s.observed see (as ++ bs) = s.observed see as ++ t.observed see bs := by
  induction as generalizing s with
  | nil =>
    obtain rfl := Option.some.inj h
    rfl
  | cons a as ih =>
    obtain ⟨u, hu, has⟩ := Option.bind_eq_some_iff.1 h
    have hact : s.act a = u := act_of_act? hu
    show see s a ++ (s.act a).observed see (as ++ bs) = see s a ++ (s.act a).observed see as ++ _
    rw [hact, ih has, List.append_assoc]

theorem observed_concat {α : Type} (see : RunningSession σ → SessionAction σ → List α)
    {as : List (SessionAction σ)} {t : RunningSession σ} (h : s.acts? as = some t)
    (a : SessionAction σ) : s.observed see (as ++ [a]) = s.observed see as ++ see t a := by
  rw [observed_append see h]
  show _ ++ (see t a ++ []) = _
  rw [List.append_nil]

/-! ## What an action leaves alone -/

theorem Acted.backend_eq {a : SessionAction σ} {t : RunningSession σ} (ha : s.Acted a t) :
    t.backend = s.backend := by
  cases ha <;> rfl

theorem backend_of_acts? {as : List (SessionAction σ)} {t : RunningSession σ}
    (h : s.acts? as = some t) : t.backend = s.backend :=
  acts?_induction (P := fun _ t => t.backend = s.backend) rfl
    (fun _ _ _ _ _ ht ha => ha.backend_eq.trans ht) h

/-- No action publishes an older view, and the end of a write publishes a newer one. -/
theorem Acted.generation_le {a : SessionAction σ} {t : RunningSession σ} (ha : s.Acted a t) :
    s.loop.view.generation + [a].countP SessionAction.isWritten ≤ t.loop.view.generation := by
  cases ha with
  | receive | command => exact SessionLoop.generation_le_turn ..
  | timeOut => exact SessionLoop.generation_le_turn (l := s.loop) s.now .watchdog
  | written => exact Nat.le_of_eq (SessionLoop.generation_turn_written ..).symm
  | _ => exact Nat.le_refl _

/-- The generation of the published view grows at least with every write that ends. -/
theorem generation_le_of_acts? {as : List (SessionAction σ)} {t : RunningSession σ}
    (h : s.acts? as = some t) :
    s.loop.view.generation + as.countP SessionAction.isWritten ≤ t.loop.view.generation := by
  refine acts?_induction (P := fun as t => s.loop.view.generation +
    as.countP SessionAction.isWritten ≤ t.loop.view.generation) (Nat.le_refl _) ?_ h
  intro as t a u _ ht ha
  have hu := ha.generation_le
  rw [List.countP_append]
  omega

/-! ## Attempts -/

/-- The answers of some writes that have no result yet. -/
def openRequests (ws : List Write) : List SubmitRequest :=
  (ws.filter fun w => w.result.isNone).map Write.request

theorem openRequests_append (ws xs : List Write) :
    openRequests (ws ++ xs) = openRequests ws ++ openRequests xs := by
  simp [openRequests]

theorem openRequests_cons_of_none {w : Write} (h : w.result = none) (ws : List Write) :
    openRequests (w :: ws) = w.request :: openRequests ws := by
  simp [openRequests, h]

theorem openRequests_cons_of_some {w : Write} {r : Except String SubmitOutcome}
    (h : w.result = some r) (ws : List Write) : openRequests (w :: ws) = openRequests ws := by
  simp [openRequests, h]

/-- The answers about a concept. -/
def about (c : String) (rs : List SubmitRequest) : List SubmitRequest :=
  rs.filter fun r => r.conceptId = c

theorem about_append (c : String) (rs qs : List SubmitRequest) :
    about c (rs ++ qs) = about c rs ++ about c qs :=
  List.filter_append ..

theorem about_openRequests_eq_nil {c : String} {ws : List Write}
    (h : c ∉ ws.map fun w => w.request.conceptId) : about c (openRequests ws) = [] := by
  rw [about, List.filter_eq_nil_iff]
  intro r hr hc
  obtain ⟨w, hw, rfl⟩ := List.mem_map.1 hr
  have hmem := List.mem_map_of_mem (f := fun w : Write => w.request.conceptId)
    (List.mem_of_mem_filter hw)
  exact h (of_decide_eq_true hc ▸ hmem)

/-- With one answer about every concept, the order in which the answers leave does not matter. -/
theorem about_openRequests_of_nodup {earlier later : List Write} {w : Write}
    (hn : ((earlier ++ w :: later).map fun w => w.request.conceptId).Nodup) (c : String) :
    about c (openRequests earlier ++ w.request :: openRequests later) =
      about c (w.request :: (openRequests earlier ++ openRequests later)) := by
  rw [List.map_append, List.map_cons, List.nodup_middle, List.nodup_cons] at hn
  rw [← List.singleton_append, ← List.singleton_append (l := openRequests earlier ++ _)]
  simp only [about_append]
  -- Either no other answer is about this concept, or this one is not about it.
  by_cases hc : w.request.conceptId = c
  · have he : about c (openRequests earlier) = [] :=
      about_openRequests_eq_nil fun hmem => hn.1 (hc ▸ List.mem_append_left _ hmem)
    simp [he]
  · have hw : about c [w.request] = [] := by simp [about, hc]
    simp [hw]

/-- An answer that is given waits for its attempt, and no action loses one that waits. -/
theorem Sound.about_acted (h : s.Sound) {a : SessionAction σ} {t : RunningSession σ}
    (ha : s.Acted a t) (c : String) :
    about c (openRequests s.writes ++ s.answerSeen a) =
      about c ((s.attemptSeen a).map Attempt.request ++ openRequests t.writes) := by
  have hn := h.nodup_inFlight
  cases ha with
  | receive =>
    rw [writes_handle]
    simp [answerSeen, attemptSeen, SessionLoop.answer?]
  | command m =>
    rw [writes_handle, answerSeen]
    cases hr : s.loop.answer? s.setup (.command m) with
    | none => simp [attemptSeen]
    | some r =>
      simp only [Option.map_some, Option.toList_some, openRequests_append]
      rfl
  | timeOut =>
    show _ = about c ([] ++ openRequests (s.handle .watchdog).writes)
    rw [writes_handle]
    simp [answerSeen, SessionLoop.answer?]
  | written hs hr =>
    obtain ⟨result, hw, -⟩ := Option.map_eq_some_iff.1 hr
    rw [writes_handle, hs]
    simp [answerSeen, attemptSeen, SessionLoop.answer?, openRequests_append,
      openRequests_cons_of_some hw]
  | dateWrite hs hw =>
    rw [hs]
    simp [answerSeen, attemptSeen, openRequests_append, openRequests_cons_of_none hw,
      openRequests_cons_of_none (w := { request := _, date := s.date, result := _ }) hw]
  | write interactionId hs hw =>
    rw [inFlight, hs] at hn
    rw [hs]
    simpa [answerSeen, attemptSeen, hs, openRequests_append, openRequests_cons_of_none hw,
      openRequests_cons_of_some] using about_openRequests_of_nodup hn c
  | failWrite message hs hw =>
    rw [inFlight, hs] at hn
    rw [hs]
    simpa [answerSeen, attemptSeen, hs, openRequests_append, openRequests_cons_of_none hw,
      openRequests_cons_of_some] using about_openRequests_of_nodup hn c
  | _ => simp [answerSeen, attemptSeen]

/-- The answers that waited at the start of a run and those that were given in it have had their
    attempt in the run or wait for it at the end. -/
theorem Sound.about_answers (h : s.Sound) {as : List (SessionAction σ)} {t : RunningSession σ}
    (hrun : s.acts? as = some t) (c : String) :
    about c (openRequests s.writes ++ s.answers as) =
      about c ((s.attempts as).map Attempt.request ++ openRequests t.writes) := by
  refine acts?_induction (P := fun as t => about c (openRequests s.writes ++ s.answers as) =
    about c ((s.attempts as).map Attempt.request ++ openRequests t.writes)) ?_ ?_ hrun
  · simp [answers, attempts, observed]
  · intro as t a u hrun ht ha
    have hstep := (sound_of_acts? h hrun).about_acted ha c
    rw [answers, attempts, observed_concat _ hrun, observed_concat _ hrun, List.map_append]
    rw [answers, attempts] at ht
    calc about c (openRequests s.writes ++ (s.observed answerSeen as ++ t.answerSeen a))
        = about c (openRequests s.writes ++ s.observed answerSeen as) ++
            about c (t.answerSeen a) := by rw [← List.append_assoc, about_append]
      _ = about c ((s.observed attemptSeen as).map Attempt.request) ++
            about c (openRequests t.writes ++ t.answerSeen a) := by
          rw [ht, about_append, about_append, List.append_assoc]
      _ = about c ((s.observed attemptSeen as).map Attempt.request ++
            (t.attemptSeen a).map Attempt.request ++ openRequests u.writes) := by
          rw [hstep, ← about_append, List.append_assoc]

theorem Acted.store_eq {a : SessionAction σ} {t : RunningSession σ} (ha : s.Acted a t)
    (he : a.isEdit = false) : t.store = replay s.backend s.store (s.attemptSeen a) := by
  cases ha with
  | edit store => simp [SessionAction.isEdit] at he
  | write interactionId hs hw => simp [attemptSeen, replay, hs]
  | failWrite message hs hw => simp [attemptSeen, replay, hs]
  | _ => rfl

/-- Without changes from outside, the attempts to write answers are all that changes what the review
    queue holds. -/
theorem store_eq_replay {as : List (SessionAction σ)} {t : RunningSession σ}
    (hrun : s.acts? as = some t) (he : ∀ a ∈ as, a.isEdit = false) :
    t.store = replay s.backend s.store (s.attempts as) := by
  refine acts?_induction (P := fun as t => (∀ a ∈ as, a.isEdit = false) →
    t.store = replay s.backend s.store (s.attempts as)) (fun _ => rfl) ?_ hrun he
  intro as t a u hrun ht ha he
  have hstep := ha.store_eq (he a (by simp))
  rw [ht fun b hb => he b (List.mem_append_left _ hb), backend_of_acts? hrun] at hstep
  rw [hstep, attempts, attempts, observed_concat _ hrun]
  exact List.foldl_append.symm

end RunningSession

end SpacedReview
