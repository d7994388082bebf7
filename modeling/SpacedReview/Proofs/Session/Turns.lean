import SpacedReview.Proofs.Session.History

/-!
# The loop in a run

Of the actions of a running session only some reach its loop. `RunningSession.message?` is the
message that an action makes the loop handle; everything that an action does to the loop, and every
notice that it gives, comes of that message.

## Main definitions

- `SessionLoop.dispatched` — the events that a poll update stands for
- `SessionLoop.noticesFor` — the notices that a message gives
- `RunningSession.message?` — the message that an action makes the loop handle

## Main statements

- `RunningSession.Acted.loop_eq`, `RunningSession.Acted.notices_eq` — what an action does to the
  loop and to the notices
- `RunningSession.exists_of_mem_observed` — what was seen in a run was seen at one of its actions
-/

namespace SpacedReview

/-- The notice that an effect gives. -/
def SessionEffect.notice? : SessionEffect → Option SessionNotice
  | notify n => some n
  | _ => none

namespace SessionLoop

variable {setup : SessionSetup} {l : SessionLoop}

/-- The events that the loop dispatches on a poll update. -/
def dispatched (setup : SessionSetup) (l : SessionLoop) (u : PollUpdate) : List SessionEvent :=
  if l.accepts u then l.state.route u.candidate (setup.lock l.locksUsed) else []

theorem dispatched_of_accepts {u : PollUpdate} (h : l.accepts u) :
    l.dispatched setup u = l.state.route u.candidate (setup.lock l.locksUsed) := by
  simp [dispatched, h]

theorem accepts_of_mem_dispatched {u : PollUpdate} {e : SessionEvent}
    (h : e ∈ l.dispatched setup u) : l.accepts u := by
  unfold dispatched at h
  split at h
  · assumption
  · simp at h

theorem onUpdate_eq (setup : SessionSetup) (l : SessionLoop) (u : PollUpdate) :
    l.onUpdate setup u = ((l.dispatched setup u).foldl dispatch l,
      (l.dispatched setup u).flatMap (noticesOf u.candidate)) := by
  unfold onUpdate dispatched
  split <;> rfl

theorem state_turn_update (now : Nat) (u : PollUpdate) :
    (l.turn setup now (.update u)).state = l.state.applyAll (l.dispatched setup u) := by
  rw [turn, state_arm, step, onUpdate_eq, state_foldl_dispatch]

/-- The notices that a message gives. -/
def noticesFor (setup : SessionSetup) (l : SessionLoop) (m : SessionMessage) :
    List SessionNotice :=
  (l.step setup m).2.filterMap SessionEffect.notice?

theorem noticesFor_command (c : SessionCommand) : l.noticesFor setup (.command c) = [] := by
  unfold noticesFor
  cases c with
  | submit answer isCorrect elapsedMs =>
    rw [step]
    cases hq : l.state.unanswered? with
    | none => rw [onSubmit_of_none hq]; rfl
    | some q => rw [onSubmit_of_unanswered hq]; rfl
  | skip =>
    rw [step]
    cases hq : l.state.unanswered? with
    | none => rw [onSkip_of_none hq]; rfl
    | some q => rw [onSkip_of_unanswered hq]; rfl

theorem noticesFor_watchdog : l.noticesFor setup .watchdog = [.timedOut] :=
  rfl

theorem noticesFor_written_error {r : CommitResult} {message : String}
    (h : r.result = .error message) :
    l.noticesFor setup (.written r) = [.submitFailed r.conceptId r.phrasingId message] := by
  simp [noticesFor, step, onWritten, commitNotice, h, SessionEffect.notice?]

/-- The end of a write that succeeded gives a notice if the phrasing is still on show. -/
theorem noticesFor_written_ok {r : CommitResult} {outcome : SubmitOutcome}
    (h : r.result = .ok outcome) :
    l.noticesFor setup (.written r) = if l.state.phrasingId? = some r.phrasingId then
      [.committed r.conceptId r.phrasingId outcome] else [] := by
  have hc : l.commitNotice r = if l.state.phrasingId? = some r.phrasingId then
      [.notify (.committed r.conceptId r.phrasingId outcome)] else [] := by
    simp [commitNotice, h]
  show List.filterMap _ (l.commitNotice r) = _
  rw [hc]
  split <;> rfl

/-- A poll update gives no other notice than that the due concepts are exhausted, and that only as
    the skipped concepts are forgotten. -/
theorem mem_noticesFor_update {u : PollUpdate} {n : SessionNotice} :
    n ∈ l.noticesFor setup (.update u) ↔
      SessionEvent.clearSkipped ∈ l.dispatched setup u ∧
        ∃ id, u.candidate.conceptId? = some id ∧ n = .exhausted id := by
  simp only [noticesFor, step, onUpdate_eq, List.mem_filterMap, List.mem_flatMap]
  constructor
  · rintro ⟨effect, ⟨e, he, heffect⟩, hn⟩
    unfold noticesOf at heffect
    split at heffect
    · split at heffect
      · rename_i id hid
        obtain rfl := List.mem_singleton.1 heffect
        exact ⟨he, id, hid, (Option.some.inj hn).symm⟩
      · simp at heffect
    · simp at heffect
  · rintro ⟨he, id, hid, rfl⟩
    exact ⟨.notify (.exhausted id), ⟨.clearSkipped, he, by simp [noticesOf, hid]⟩, rfl⟩

end SessionLoop

namespace RunningSession

variable {σ : Type} {s : RunningSession σ}

/-- The message that an action makes the loop handle. -/
def message? (s : RunningSession σ) : SessionAction σ → Option SessionMessage
  | .receive => s.poller.channel.head?.map .update
  | .command c => some (.command c)
  | .written i => (s.writes[i]?.bind Write.result?).map .written
  | .timeOut => some .watchdog
  | _ => none

theorem message?_written {earlier later : List Write} {w : Write} {r : CommitResult}
    (hs : s.writes = earlier ++ w :: later) (hr : w.result? = some r) :
    s.message? (.written earlier.length) = some (.written r) := by
  simp [message?, hs, hr]

theorem Acted.setup_eq {a : SessionAction σ} {t : RunningSession σ} (ha : s.Acted a t) :
    t.setup = s.setup := by
  cases ha <;> rfl

theorem setup_of_acts? {as : List (SessionAction σ)} {t : RunningSession σ}
    (h : s.acts? as = some t) : t.setup = s.setup :=
  acts?_induction (P := fun _ t => t.setup = s.setup) rfl
    (fun _ _ _ _ _ ht ha => ha.setup_eq.trans ht) h

/-- An action changes the loop by the message that it makes it handle. -/
theorem Acted.loop_eq {a : SessionAction σ} {t : RunningSession σ} (ha : s.Acted a t) :
    t.loop = match s.message? a with
      | some m => s.loop.turn s.setup s.now m
      | none => s.loop := by
  cases ha with
  | receive hc => simp only [message?, hc]; rfl
  | written hs hr => rw [message?_written hs hr]; rfl
  | _ => rfl

theorem Acted.notices_eq {a : SessionAction σ} {t : RunningSession σ} (ha : s.Acted a t) :
    t.notices = s.notices ++ match s.message? a with
      | some m => s.loop.noticesFor s.setup m
      | none => [] := by
  cases ha with
  | receive hc => simp only [message?, hc]; rfl
  | written hs hr => rw [message?_written hs hr]; rfl
  | command | timeOut => rfl
  | _ => exact (List.append_nil _).symm

theorem Acted.canHandle {a : SessionAction σ} {t : RunningSession σ} (ha : s.Acted a t)
    {m : SessionMessage} (hm : s.message? a = some m) : s.loop.CanHandle s.now m := by
  cases ha with
  | receive hc =>
    simp only [message?, hc] at hm
    obtain rfl := Option.some.inj hm
    trivial
  | command c =>
    obtain rfl := Option.some.inj hm
    trivial
  | written hs hr =>
    rw [message?_written hs hr] at hm
    obtain rfl := Option.some.inj hm
    trivial
  | @timeOut deadline hd hnow =>
    obtain rfl := Option.some.inj hm
    exact ⟨deadline, hd, hnow⟩
  | _ => cases hm

/-- What was seen in a run was seen at one of its actions. -/
theorem exists_of_mem_observed {α : Type} {see : RunningSession σ → SessionAction σ → List α}
    {as : List (SessionAction σ)} {t : RunningSession σ} (hrun : s.acts? as = some t) {x : α}
    (hx : x ∈ s.observed see as) :
    ∃ before a after u, as = before ++ a :: after ∧ s.acts? before = some u ∧ x ∈ see u a := by
  refine acts?_induction (P := fun as _ => x ∈ s.observed see as → ∃ before a after u,
    as = before ++ a :: after ∧ s.acts? before = some u ∧ x ∈ see u a)
    (by simp [observed]) ?_ hrun hx
  intro as t a u hrun ih _ hx
  rw [observed_concat see hrun] at hx
  rcases List.mem_append.1 hx with hx | hx
  · obtain ⟨before, b, after, v, rfl, hv, hb⟩ := ih hx
    exact ⟨before, b, after ++ [a], v, by simp, hv, hb⟩
  · exact ⟨as, a, [], t, rfl, hrun, hx⟩

theorem mem_observed_of_mem {α : Type} {see : RunningSession σ → SessionAction σ → List α}
    {before after : List (SessionAction σ)} {a : SessionAction σ} {u : RunningSession σ}
    (hu : s.acts? before = some u) {x : α} (hx : x ∈ see u a) :
    x ∈ s.observed see (before ++ a :: after) := by
  rw [observed_append see hu]
  exact List.mem_append_right _ (List.mem_append_left _ hx)

end RunningSession

end SpacedReview
