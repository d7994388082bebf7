import SpacedReview.Proofs.Session.LoopRuns

/-!
# The lock of a question

From the message that puts a question on show until the learner's next command, no message changes
the state of the session, and the watchdog stands still.

## Main statements

- `SessionLoop.state_eq_while_unanswered` — nothing but a command touches an unanswered question
-/

namespace SpacedReview

/-- The message is the learner's. -/
def SessionMessage.isCommand : SessionMessage → Bool
  | command _ => true
  | _ => false

namespace SessionLoop

variable {setup : SessionSetup} {l : SessionLoop}

/-- An unanswered question is on show and the watchdog stands still. -/
structure Unanswered (l : SessionLoop) : Prop where
  isLocked : l.state.isLocked
  awaitsQuestion : l.state.awaitsQuestion = false
  deadline : l.deadline = none

/-- An update that puts a question on show leaves it unanswered. -/
theorem Installs.unanswered_turn {u : PollUpdate} {q : Question} (h : l.Installs setup u q)
    (now : Nat) :
    (l.turn setup now (.update u)).state.unanswered? = some q ∧
      (l.turn setup now (.update u)).state.lock = some q.lock ∧
      (l.turn setup now (.update u)).Unanswered := by
  obtain ⟨ha, hmem⟩ := h
  obtain ⟨-, hq, hlock, hw⟩ := SessionState.applyAll_route_of_mem hmem
  rw [← state_turn_of_accepts ha now] at hq hlock hw
  have hl := (SessionState.unanswered?_eq_some.1 hq).1
  exact ⟨hq, hlock, hl, hw, deadline_turn_eq_none hw⟩

/-- A message that is not the learner's leaves an unanswered question alone. -/
theorem Unanswered.state_turn (h : l.Unanswered) {now : Nat} {m : SessionMessage}
    (hm : l.CanHandle now m) (hc : m.isCommand = false) :
    (l.turn setup now m).state = l.state := by
  obtain ⟨l', hs, ht⟩ := exists_stepped setup now l m
  rw [ht, state_arm]
  cases hs with
  | overlooked | refused | written => rfl
  | routed =>
    rw [SessionState.route_of_locked h.isLocked]
    rfl
  | submitted | skipped => simp [SessionMessage.isCommand] at hc
  | gaveUp =>
    -- There is no deadline that could have come.
    obtain ⟨deadline, hd, -⟩ := hm
    simp [h.deadline] at hd

theorem Unanswered.turn (h : l.Unanswered) {now : Nat} {m : SessionMessage}
    (hm : l.CanHandle now m) (hc : m.isCommand = false) : (l.turn setup now m).Unanswered := by
  have hs : (l.turn setup now m).state = l.state := h.state_turn hm hc
  have hw : (l.turn setup now m).state.awaitsQuestion = false := by rw [hs, h.awaitsQuestion]
  exact ⟨by rw [hs, h.isLocked], hw, deadline_turn_eq_none hw⟩

theorem Unanswered.after (h : l.Unanswered) {now : Nat} {ms : List (Nat × SessionMessage)}
    (hrun : IsRun setup l now ms) (hc : ∀ m ∈ ms, m.2.isCommand = false) :
    (l.after setup ms).state = l.state ∧ (l.after setup ms).deadline = none := by
  induction ms generalizing l now with
  | nil => exact ⟨rfl, h.deadline⟩
  | cons m ms ih =>
    obtain ⟨-, hm, hrun⟩ := hrun
    have hcm := hc m List.mem_cons_self
    obtain ⟨hs, hd⟩ := ih (h.turn hm hcm) hrun fun m' hm' => hc m' (List.mem_cons_of_mem m hm')
    exact ⟨hs.trans (h.state_turn hm hcm), hd⟩

/-- From the update that puts a question on show until the learner's next command, every message
    leaves the state of the session as it is, and the watchdog stands still. -/
theorem state_eq_while_unanswered {start now : Nat} {before rest : List (Nat × SessionMessage)}
    {u : PollUpdate} {q : Question}
    (hrun : IsRun setup (opening setup start) start (before ++ (now, .update u) :: rest))
    (hq : ((opening setup start).after setup before).Installs setup u q)
    (hrest : ∀ m ∈ rest, m.2.isCommand = false) :
    let shown := (opening setup start).after setup (before ++ [(now, .update u)])
    let l := (opening setup start).after setup (before ++ (now, .update u) :: rest)
    shown.state.question = some q ∧ shown.state.lock = some q.lock ∧
      l.state = shown.state ∧ l.deadline = none := by
  intro shown l
  have hshown : shown = ((opening setup start).after setup before).turn setup now (.update u) :=
    after_append ..
  have hl : l = shown.after setup rest := by
    rw [hshown]
    exact after_append ..
  obtain ⟨hquestion, hlock, hu⟩ := hq.unanswered_turn now
  rw [← hshown] at hquestion hlock hu
  obtain ⟨-, hrun⟩ := hrun.of_append_cons
  rw [hl]
  exact ⟨(SessionState.unanswered?_eq_some.1 hquestion).2, hlock, hu.after hrun hrest⟩

/-- While a question is on show, another one comes in, and a write fails. -/
theorem state_eq_of_update_and_failure :
    let setup : SessionSetup := ⟨"session", 1000, fun _ => "lock"⟩
    let update (id : String) : PollUpdate := ⟨.found (.unreviewed id), .first⟩
    let rest : List (Nat × SessionMessage) :=
      [(5, .update (update "d")), (9, .written ⟨"e", "e", .error "offline"⟩)]
    let shown := (opening setup 0).after setup [(3, .update (update "c"))]
    let l := (opening setup 0).after setup ((3, .update (update "c")) :: rest)
    shown.state.lock = some "lock" ∧ l.state = shown.state ∧ l.deadline = none := by
  intro setup update rest shown l
  have hrun : IsRun setup (opening setup 0) 0 ([] ++ (3, .update (update "c")) :: rest) := by
    simp [IsRun, CanHandle, rest]
  have hq : (opening setup 0).Installs setup (update "c") ⟨.unreviewed "c", "lock"⟩ :=
    ⟨by decide, List.mem_singleton.2 rfl⟩
  exact (state_eq_while_unanswered hrun hq (by decide)).2

end SessionLoop

end SpacedReview
