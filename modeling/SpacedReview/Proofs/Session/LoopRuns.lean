import SpacedReview.Proofs.Session.Consistency

/-!
# Runs of the session loop

A session loop handles one message after the other and sets its deadline each time before it waits
again. `SessionLoop.IsRun` says which messages it can handle and when: the watchdog once the
deadline has come, and anything else at any time. What a waiting loop keeps true from message to
message is `SessionLoop.Sound`.

## Main definitions

- `SessionLoop.turn` — the loop that waits again after a message
- `SessionLoop.IsRun`, `SessionLoop.after` — the messages of a run and the loop after them
- `SessionLoop.Sound` — the invariant of the loop

## Main statements

- `SessionLoop.Sound.turn` — every message keeps the invariant
-/

namespace SpacedReview

namespace SessionLoop

variable {setup : SessionSetup} {l : SessionLoop}

/-- The loop that waits again after it has handled a message. -/
def turn (setup : SessionSetup) (now : Nat) (l : SessionLoop) (m : SessionMessage) : SessionLoop :=
  (l.step setup m).1.arm setup now

/-- The loop can handle a message: the watchdog when its deadline has come, anything else at any
    time. -/
def CanHandle (l : SessionLoop) (now : Nat) : SessionMessage → Prop
  | .watchdog => ∃ deadline, l.deadline = some deadline ∧ deadline ≤ now
  | _ => True

/-- The loop that waits after some messages, each given with its time. -/
def after (setup : SessionSetup) (l : SessionLoop) (ms : List (Nat × SessionMessage)) :
    SessionLoop :=
  ms.foldl (fun l m => l.turn setup m.1 m.2) l

/-- The messages can come one after the other, each at its time, on a clock that shows a time now
    and never goes back. -/
def IsRun (setup : SessionSetup) : SessionLoop → Nat → List (Nat × SessionMessage) → Prop
  | _, _, [] => True
  | l, now, (next, m) :: rest =>
    now ≤ next ∧ l.CanHandle next m ∧ IsRun setup (l.turn setup next m) next rest

/-- The loop of a session that starts at a time, waiting for its first message. -/
def opening (setup : SessionSetup) (now : Nat) : SessionLoop :=
  start.arm setup now

theorem after_append (l : SessionLoop) (ms ns : List (Nat × SessionMessage)) :
    l.after setup (ms ++ ns) = (l.after setup ms).after setup ns :=
  List.foldl_append

theorem after_concat (l : SessionLoop) (ms : List (Nat × SessionMessage)) (now : Nat)
    (m : SessionMessage) :
    l.after setup (ms ++ [(now, m)]) = (l.after setup ms).turn setup now m :=
  after_append ..

theorem IsRun.of_append {now : Nat} {ms ns : List (Nat × SessionMessage)}
    (h : IsRun setup l now (ms ++ ns)) : IsRun setup l now ms := by
  induction ms generalizing l now with
  | nil => trivial
  | cons m ms ih => exact ⟨h.1, h.2.1, ih h.2.2⟩

theorem IsRun.of_append_cons {now next : Nat} {m : SessionMessage}
    {before rest : List (Nat × SessionMessage)}
    (h : IsRun setup l now (before ++ (next, m) :: rest)) :
    (l.after setup before).CanHandle next m ∧
      IsRun setup (l.after setup (before ++ [(next, m)])) next rest := by
  induction before generalizing l now with
  | nil => exact h.2
  | cons b before ih => exact ih h.2.2

/-! ## What a turn changes -/

theorem exists_stepped (setup : SessionSetup) (now : Nat) (l : SessionLoop) (m : SessionMessage) :
    ∃ l', l.Stepped setup m l' ∧ l.turn setup now m = l'.arm setup now :=
  ⟨_, stepped_step setup l m, rfl⟩

theorem state_turn_of_accepts {u : PollUpdate} (h : l.accepts u) (now : Nat) :
    (l.turn setup now (.update u)).state =
      l.state.applyAll (l.state.route u.candidate (setup.lock l.locksUsed)) := by
  rw [turn, state_arm, step, onUpdate_of_accepts h, state_foldl_dispatch]

theorem view_turn_of_accepts {u : PollUpdate} (h : l.accepts u) (now : Nat) :
    (l.turn setup now (.update u)).view =
      ((l.state.route u.candidate (setup.lock l.locksUsed)).foldl dispatch l).view := by
  rw [turn, view_arm, step, onUpdate_of_accepts h]

theorem view_dispatch_autoSkip (h : l.view.skips = .ofState l.state) {id : String}
    (hid : l.state.lastAutoSkipped ≠ some id) :
    (l.dispatch (.autoSkip id)).view =
      l.view.succeed (.ofState (l.dispatch (.autoSkip id)).state) := by
  refine PollView.update_of_ne (fun he => hid ?_) false
  rw [h] at he
  exact congrArg SkipView.lastAutoSkipped he

theorem view_dispatch_skipConcept (h : l.view.skips = .ofState l.state) {id : String}
    (hid : id ∉ l.state.skipped) :
    (l.dispatch (.skipConcept id)).view =
      l.view.succeed (.ofState (l.dispatch (.skipConcept id)).state) := by
  refine PollView.update_of_ne (fun he => hid ?_) false
  rw [h] at he
  have hs : l.state.skipped = l.state.skipped.insert id := congrArg SkipView.skipped he
  rw [hs]
  exact IdSet.mem_insert.2 (.inl rfl)

theorem deadline_turn_eq_none {now : Nat} {m : SessionMessage}
    (h : (l.turn setup now m).state.awaitsQuestion = false) :
    (l.turn setup now m).deadline = none := by
  have hd := isSome_deadline_arm setup now (l.step setup m).1
  rw [turn, state_arm] at h
  rw [h, Option.isSome_eq_false_iff, Option.isNone_iff_eq_none] at hd
  exact hd

/-- Unless a write ends, an answer is all that changes the concepts with writes on their way. -/
theorem committing_turn {m : SessionMessage} (hm : ∀ r, m ≠ .written r) (now : Nat) :
    (l.turn setup now m).committing =
      match l.answer? setup m with
      | some q => l.committing.insert q.conceptId
      | none => l.committing := by
  obtain ⟨l', h, ht⟩ := exists_stepped setup now l m
  rw [ht, committing_arm]
  cases h with
  | overlooked | gaveUp | skipped => rfl
  | routed => exact committing_foldl_dispatch ..
  | @refused c hq => cases c <;> simp [answer?, hq]
  | submitted _ _ _ hq => simp [answer?, hq, answerTo, committing_dispatch]
  | written r => exact absurd rfl (hm r)

theorem committing_turn_written (now : Nat) (r : CommitResult) :
    (l.turn setup now (.written r)).committing = l.committing.erase r.conceptId :=
  committing_arm ..

theorem isReceiving_turn {m : SessionMessage} (hm : m ≠ .watchdog) (now : Nat) :
    (l.turn setup now m).isReceiving = l.isReceiving := by
  obtain ⟨l', h, ht⟩ := exists_stepped setup now l m
  rw [ht, isReceiving_arm]
  cases h with
  | overlooked | refused | submitted | skipped | written => rfl
  | routed => exact isReceiving_foldl_dispatch ..
  | gaveUp => exact absurd rfl hm

theorem isReceiving_turn_watchdog (now : Nat) :
    (l.turn setup now .watchdog).isReceiving = false :=
  isReceiving_arm ..

/-- No message publishes an older view. -/
theorem generation_le_turn (now : Nat) (m : SessionMessage) :
    l.view.generation ≤ (l.turn setup now m).view.generation := by
  obtain ⟨l', h, ht⟩ := exists_stepped setup now l m
  rw [ht, view_arm]
  cases h with
  | overlooked | refused => exact Nat.le_refl _
  | routed => exact generation_le_foldl_dispatch ..
  | submitted | skipped | gaveUp => exact PollView.generation_le_update ..
  | written => exact Nat.le_succ _

theorem generation_turn_written (now : Nat) (r : CommitResult) :
    (l.turn setup now (.written r)).view.generation = l.view.generation + 1 := by
  rw [turn, view_arm]
  rfl

/-! ## The invariant -/

/-- What holds of a loop whenever it waits. -/
structure Sound (l : SessionLoop) : Prop where
  consistent : l.state.Consistent
  /-- The published view shows what the session has skipped. -/
  skips_view : l.view.skips = .ofState l.state
  phase_of_not_receiving : l.isReceiving = false → l.state.phase = .error
  /-- No write is on its way for the concept of an unanswered question. -/
  not_mem_committing : ∀ q, l.state.unanswered? = some q →
    q.candidate.concept.id ∉ l.committing
  /-- The watchdog runs exactly while a question is awaited. -/
  isSome_deadline : l.deadline.isSome = l.state.awaitsQuestion

theorem Sound.arm {now : Nat} (hc : l.state.Consistent) (hv : l.view.skips = .ofState l.state)
    (hr : l.isReceiving = false → l.state.phase = .error)
    (hm : ∀ q, l.state.unanswered? = some q → q.candidate.concept.id ∉ l.committing) :
    (l.arm setup now).Sound := by
  have hd := isSome_deadline_arm setup now l
  rw [arm_eq]
  exact ⟨hc, hv, hr, hm, hd⟩

theorem Sound.arm_of_unlocked {now : Nat} (hc : l.state.Consistent)
    (hv : l.view.skips = .ofState l.state) (hr : l.isReceiving = false → l.state.phase = .error)
    (hl : l.state.isLocked = false) : (l.arm setup now).Sound :=
  .arm hc hv hr fun q hq => by simp [SessionState.unanswered?_of_unlocked hl] at hq

theorem sound_opening (now : Nat) : (opening setup now).Sound :=
  .arm_of_unlocked .initial (PollView.skips_update _ _ _) (by simp [start, isReceiving_dispatch,
    initial]) rfl

/-- Every message keeps the invariant. -/
theorem Sound.turn (h : l.Sound) {now : Nat} {m : SessionMessage} (hm : l.CanHandle now m) :
    (l.turn setup now m).Sound := by
  obtain ⟨l', hs, ht⟩ := exists_stepped setup now l m
  rw [ht]
  cases hs with
  | overlooked | refused =>
    exact .arm h.consistent h.skips_view h.phase_of_not_receiving h.not_mem_committing
  | @routed u ha =>
    obtain ⟨hr, -, hfree⟩ := accepts_iff.1 ha
    refine .arm ?_ (skips_view_foldl_dispatch h.skips_view) ?_ ?_
    · rw [state_foldl_dispatch]
      exact h.consistent.applyAll_route ..
    · intro hn
      rw [isReceiving_foldl_dispatch, hr] at hn
      cases hn
    · -- The question was on show before, or it is the one of an update that the loop has let pass.
      intro q hq
      rw [state_foldl_dispatch] at hq
      rw [committing_foldl_dispatch]
      rcases SessionState.unanswered?_applyAll_route hq with hq | hc
      · exact h.not_mem_committing q hq
      · exact hfree _ (by rw [hc]; rfl)
  | submitted _ _ _ hq =>
    have hl := (SessionState.unanswered?_eq_some.1 hq).1
    exact .arm_of_unlocked (h.consistent.apply_reviewComplete hl) (PollView.skips_update ..)
      h.phase_of_not_receiving rfl
  | skipped hq =>
    have hl := (SessionState.unanswered?_eq_some.1 hq).1
    exact .arm_of_unlocked (h.consistent.apply_skipConcept hl _) (PollView.skips_update ..)
      h.phase_of_not_receiving rfl
  | written r =>
    refine .arm h.consistent rfl h.phase_of_not_receiving ?_
    intro q hq hmem
    exact h.not_mem_committing q hq (IdSet.mem_erase.1 hmem).1
  | gaveUp =>
    obtain ⟨deadline, hd, -⟩ := hm
    have hw : l.state.awaitsQuestion := by rw [← h.isSome_deadline, hd]; rfl
    exact .arm_of_unlocked (h.consistent.apply_loadTimeout hw) (PollView.skips_update ..)
      (fun _ => rfl) (h.consistent.isLocked_of_awaitsQuestion hw)

theorem Sound.after (h : l.Sound) {now : Nat} {ms : List (Nat × SessionMessage)}
    (hrun : IsRun setup l now ms) : (l.after setup ms).Sound := by
  induction ms generalizing l now with
  | nil => exact h
  | cons m ms ih => exact ih (h.turn hrun.2.1) hrun.2.2

end SessionLoop

end SpacedReview
