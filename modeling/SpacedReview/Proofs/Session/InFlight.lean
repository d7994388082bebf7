import Mathlib.Data.List.Nodup
import SpacedReview.Proofs.Session.Actions

/-!
# Answers on their way

A running session consists of parts that act on their own. `RunningSession.Sound` says how they
keep in step: the poller has the view that the loop published last, and the loop knows exactly the
concepts that have an answer on its way, of which no concept has two.

## Main definitions

- `RunningSession.inFlight` — the concepts with an answer on its way
- `RunningSession.Sound` — the invariant of a running session

## Main statements

- `RunningSession.sound_of_acts?` — the invariant holds in every run
-/

namespace SpacedReview

/-- The answer that a message makes the loop write is about a concept without a write on its
    way. -/
theorem SessionLoop.Sound.not_mem_committing_of_answer? {setup : SessionSetup} {l : SessionLoop}
    (h : l.Sound) {m : SessionMessage} {r : SubmitRequest} (hr : l.answer? setup m = some r) :
    r.conceptId ∉ l.committing := by
  unfold SessionLoop.answer? at hr
  split at hr
  · obtain ⟨q, hq, rfl⟩ := Option.map_eq_some_iff.1 hr
    exact h.not_mem_committing q hq
  · cases hr

namespace RunningSession

variable {σ : Type} {s : RunningSession σ}

/-- The concepts whose answers were given and have results that the loop has not handled yet. -/
def inFlight (s : RunningSession σ) : List String :=
  s.writes.map fun w => w.request.conceptId

/-- How the loop of a session keeps in step with the view of the poller, with the end of the
    channel, and with the concepts that have answers on their way. -/
structure InStep (l : SessionLoop) (view : PollView) (isReceived : Bool)
    (inFlight : List String) : Prop where
  loop : l.Sound
  view_eq : view = l.view
  isReceived_eq : isReceived = l.isReceiving
  mem_committing_iff : ∀ c, c ∈ l.committing ↔ c ∈ inFlight
  nodup_inFlight : inFlight.Nodup

/-- What holds of a session in every run. -/
def Sound (s : RunningSession σ) : Prop :=
  InStep s.loop s.poller.view s.poller.isReceived s.inFlight

theorem inFlight_handle (s : RunningSession σ) (m : SessionMessage) :
    (s.handle m).inFlight =
      s.inFlight ++ ((s.loop.answer? s.setup m).map SubmitRequest.conceptId).toList := by
  rw [inFlight, writes_handle, List.map_append]
  cases s.loop.answer? s.setup m <;> rfl

theorem sound_startOn (setup : SessionSetup) (backend : ReviewBackend σ) (store : σ)
    (date : Instant) (pollInterval : Nat) :
    (startOn setup backend store date pollInterval).Sound where
  loop := SessionLoop.sound_opening 0
  view_eq := by
    show PollView.first = (SessionLoop.start.arm setup 0).view
    rw [SessionLoop.view_arm]
    decide
  isReceived_eq := (SessionLoop.isReceiving_arm setup 0 SessionLoop.start).symm
  mem_committing_iff c := by
    show c ∈ (SessionLoop.start.arm setup 0).committing ↔ c ∈ []
    rw [SessionLoop.committing_arm]
    exact iff_of_false IdSet.not_mem_empty List.not_mem_nil
  nodup_inFlight := List.nodup_nil

/-- A message that neither ends a write nor the session keeps the parts in step. -/
theorem Sound.handle (h : s.Sound) (m : SessionMessage) (hm : s.loop.CanHandle s.now m)
    (hr : ∀ r, m ≠ .written r) (hw : m ≠ .watchdog) : (s.handle m).Sound where
  loop := h.loop.turn hm
  view_eq := view_poller_handle h.view_eq m
  isReceived_eq := by
    rw [isReceived_poller_handle, h.isReceived_eq]
    exact (SessionLoop.isReceiving_turn hw s.now).symm
  mem_committing_iff c := by
    have hc : (s.handle m).loop.committing = _ := SessionLoop.committing_turn hr s.now
    rw [hc, inFlight_handle]
    cases s.loop.answer? s.setup m with
    | none => simpa using h.mem_committing_iff c
    | some r => simp [IdSet.mem_insert, h.mem_committing_iff, or_comm]
  nodup_inFlight := by
    rw [inFlight_handle]
    cases hr : s.loop.answer? s.setup m with
    | none => simpa using h.nodup_inFlight
    | some r =>
      -- The loop has no write on its way for the question on show, so the answer is the only one.
      have hnew := h.loop.not_mem_committing_of_answer? hr
      rw [h.mem_committing_iff] at hnew
      exact List.Nodup.append h.nodup_inFlight (List.nodup_singleton _) (by simpa using hnew)

/-- The end of a write keeps the parts in step. -/
theorem Sound.written (h : s.Sound) {earlier later : List Write} {w : Write} {r : CommitResult}
    (hs : s.writes = earlier ++ w :: later) (hr : w.result? = some r) :
    ({ s with writes := earlier ++ later }.handle (.written r)).Sound := by
  have hid : r.conceptId = w.request.conceptId := by
    obtain ⟨result, -, rfl⟩ := Option.map_eq_some_iff.1 hr
    rfl
  have hfull : s.inFlight = earlier.map (fun w => w.request.conceptId) ++
      w.request.conceptId :: later.map (fun w => w.request.conceptId) := by
    simp [inFlight, hs]
  have hrest : ({ s with writes := earlier ++ later }.handle (.written r)).inFlight =
      earlier.map (fun w => w.request.conceptId) ++
        later.map (fun w => w.request.conceptId) := by
    rw [inFlight_handle]
    simp [inFlight, SessionLoop.answer?]
  have hnodup := h.nodup_inFlight
  rw [hfull, List.nodup_middle, List.nodup_cons] at hnodup
  refine ⟨h.loop.turn trivial, view_poller_handle h.view_eq _, ?_, ?_, ?_⟩
  · have hne : SessionMessage.written r ≠ .watchdog := by simp
    rw [isReceived_poller_handle]
    exact h.isReceived_eq.trans (SessionLoop.isReceiving_turn hne s.now).symm
  · intro c
    have hc : ({ s with writes := earlier ++ later }.handle (.written r)).loop.committing = _ :=
      SessionLoop.committing_turn_written s.now r
    rw [hc, hrest, hid, IdSet.mem_erase, h.mem_committing_iff, hfull]
    constructor
    · rintro ⟨hmem, hne⟩
      simpa [hne] using hmem
    · intro hmem
      refine ⟨?_, fun he => hnodup.1 (he ▸ hmem)⟩
      rcases List.mem_append.1 hmem with hmem | hmem
      · exact List.mem_append_left _ hmem
      · exact List.mem_append_right _ (List.mem_cons_of_mem _ hmem)
  · rw [hrest]
    exact hnodup.2

/-- Every action keeps the parts in step. -/
theorem Sound.acted (h : s.Sound) {a : SessionAction σ} {t : RunningSession σ}
    (ha : s.Acted a t) : t.Sound := by
  cases ha with
  | pass | setDate | edit | startFetch | startViewFetch | answerFetch | failFetch | suppress =>
    exact h
  | @forward v o u hv hn =>
    rcases Poller.send_cases { s.poller with lastForwarded := some u.fingerprint } u with
      ⟨-, hu⟩ | ⟨-, hu⟩ | ⟨-, hu⟩
    all_goals
      rw [hu]
      exact h
  | @resend u hu =>
    rcases s.poller.send_cases u with ⟨-, hu⟩ | ⟨-, hu⟩ | ⟨-, hu⟩
    all_goals
      rw [hu]
      exact h
  | @receive u rest hc =>
    have h : ({ s with poller := { s.poller with channel := rest } } : RunningSession σ).Sound := h
    exact h.handle (.update u) trivial (by simp) (by simp)
  | command c => exact h.handle (.command c) trivial (by simp) (by simp)
  | dateWrite hs | write _ hs | failWrite _ hs =>
    unfold Sound inFlight at h ⊢
    rw [hs] at h
    simpa using h
  | written hs hr => exact h.written hs hr
  | @timeOut deadline hd hnow =>
    have hc : (s.handle .watchdog).loop.committing = s.loop.committing :=
      SessionLoop.committing_turn (by simp) s.now
    have hf : (s.handle .watchdog).inFlight = s.inFlight := by
      rw [inFlight_handle]
      exact List.append_nil _
    refine ⟨h.loop.turn ⟨deadline, hd, hnow⟩, view_poller_handle h.view_eq .watchdog,
      (SessionLoop.isReceiving_turn_watchdog s.now).symm, ?_, ?_⟩
    · intro c
      show c ∈ (s.handle .watchdog).loop.committing ↔ c ∈ (s.handle .watchdog).inFlight
      rw [hc, hf, h.mem_committing_iff]
    · show (s.handle .watchdog).inFlight.Nodup
      rw [hf]
      exact h.nodup_inFlight

theorem sound_of_acts? (hs : s.Sound) {as : List (SessionAction σ)} {t : RunningSession σ}
    (h : s.acts? as = some t) : t.Sound :=
  acts?_induction (P := fun _ t => t.Sound) hs (fun _ _ _ _ _ ht ha => ht.acted ha) h

end RunningSession

end SpacedReview
