import SpacedReview.Proofs.Session.Turns

/-!
# The watchdog

While a session awaits a question its loop has a deadline. It is set when the loop first waits for
the question, and nothing that leaves the session waiting moves it, so that the watchdog gives up
after a full timeout of waiting without a break. From then on nothing touches the session any more.
The time of a message is the one at which the loop waits again after it; the watchdog's is the one
at which it comes.

## Main definitions

- `SessionLoop.eventsOn` — the events that a message makes the loop dispatch
- `SessionLoop.AwaitsSince` — since when a session has awaited a question without a break
- `SessionLoop.effects` — what the loop does in a run beyond its own state
- `SessionLoop.Watched` — how the deadline, the watchdog and the end of a session hang together

## Main statements

- `SessionLoop.watched_of_isRun` — every run of a session is watched
-/

namespace SpacedReview

/-- The event of a command on an unanswered question. -/
def SessionCommand.event (q : Question) : SessionCommand → SessionEvent
  | submit .. => .reviewComplete
  | skip => .skipConcept q.candidate.concept.id

namespace SessionLoop

variable {setup : SessionSetup} {l : SessionLoop}

/-! ## The events of a message -/

/-- The events that the loop dispatches on a message, in order. -/
def eventsOn (setup : SessionSetup) (l : SessionLoop) : SessionMessage → List SessionEvent
  | .update u => l.dispatched setup u
  | .command c => l.state.unanswered?.toList.map fun q => c.event q
  | .written _ => []
  | .watchdog => [.loadTimeout]

theorem eventsOn_command_of_none (h : l.state.unanswered? = none) (c : SessionCommand) :
    l.eventsOn setup (.command c) = [] := by
  simp [eventsOn, h]

/-- The events of a message are all that changes the state of the session. -/
theorem state_step (setup : SessionSetup) (l : SessionLoop) (m : SessionMessage) :
    (l.step setup m).1.state = l.state.applyAll (l.eventsOn setup m) := by
  have hs := stepped_step setup l m
  generalize (l.step setup m).1 = l' at hs
  cases hs with
  | overlooked h => simp [eventsOn, dispatched, h, SessionState.applyAll]
  | routed h => rw [eventsOn, dispatched_of_accepts h, state_foldl_dispatch]
  | refused h => rw [eventsOn_command_of_none h]; rfl
  | submitted _ _ _ h | skipped h => simp [eventsOn, h, SessionCommand.event, dispatch,
      SessionState.applyAll]
  | written | gaveUp => rfl

/-- Only when the skipped concepts are forgotten does a message have two events. -/
theorem length_eventsOn_le_one_or (setup : SessionSetup) (l : SessionLoop) (m : SessionMessage) :
    (l.eventsOn setup m).length ≤ 1 ∨
      ∃ q id, l.eventsOn setup m = [.clearSkipped, .questionReceived q] ∧
        l.state.lastAutoSkipped = some id := by
  cases m with
  | update u =>
    rw [eventsOn]
    unfold dispatched
    split
    · have hr := l.state.routed_route u.candidate (setup.lock l.locksUsed)
      generalize l.state.route u.candidate (setup.lock l.locksUsed) = events at hr
      generalize u.candidate = c at hr
      cases hr with
      | exhausted _ _ hlast => exact .inr ⟨_, _, rfl, hlast⟩
      | _ => exact .inl (Nat.le_refl 1)
    · exact .inl (Nat.zero_le 1)
  | command c =>
    rw [eventsOn]
    cases l.state.unanswered? with
    | none => exact .inl (Nat.zero_le 1)
    | some q => exact .inl (Nat.le_refl 1)
  | written r => exact .inl (Nat.zero_le 1)
  | watchdog => exact .inl (Nat.le_refl 1)

/-- A session gives up at the watchdog only. -/
theorem eq_watchdog_of_loadTimeout_mem {m : SessionMessage}
    (h : SessionEvent.loadTimeout ∈ l.eventsOn setup m) : m = .watchdog := by
  cases m with
  | update u =>
    rw [eventsOn, dispatched_of_accepts (accepts_of_mem_dispatched h)] at h
    have hr := l.state.routed_route u.candidate (setup.lock l.locksUsed)
    generalize l.state.route u.candidate (setup.lock l.locksUsed) = events at h hr
    generalize u.candidate = c at hr
    cases hr <;> simp at h
  | command c =>
    obtain ⟨q, -, hq⟩ := List.mem_map.1 h
    cases c <;> cases hq
  | written r => cases h
  | watchdog => rfl

/-! ## The deadline -/

theorem deadline_foldl_dispatch (es : List SessionEvent) (l : SessionLoop) :
    (es.foldl dispatch l).deadline = l.deadline := by
  induction es generalizing l with
  | nil => rfl
  | cons e es ih => exact ih (l.dispatch e)

/-- No message moves the deadline; only the loop that waits again does. -/
theorem deadline_step (setup : SessionSetup) (l : SessionLoop) (m : SessionMessage) :
    (l.step setup m).1.deadline = l.deadline := by
  have hs := stepped_step setup l m
  generalize (l.step setup m).1 = l' at hs
  cases hs with
  | routed => exact deadline_foldl_dispatch ..
  | _ => rfl

theorem state_turn (now : Nat) (m : SessionMessage) :
    (l.turn setup now m).state = l.state.applyAll (l.eventsOn setup m) := by
  rw [turn, state_arm, state_step]

/-- A deadline stays where it is while the session awaits a question. -/
theorem deadline_turn_of_some {now deadline : Nat} {m : SessionMessage}
    (hd : l.deadline = some deadline) (hw : (l.turn setup now m).state.awaitsQuestion) :
    (l.turn setup now m).deadline = some deadline := by
  rw [turn, state_arm] at hw
  simp [turn, arm, hw, deadline_step, hd]

/-- A session that begins to await a question has the full timeout. -/
theorem deadline_turn_of_none {now : Nat} {m : SessionMessage} (hd : l.deadline = none)
    (hw : (l.turn setup now m).state.awaitsQuestion) :
    (l.turn setup now m).deadline = some (now + setup.loadingTimeout) := by
  rw [turn, state_arm] at hw
  simp [turn, arm, hw, deadline_step, hd]

theorem isSome_deadline_after_opening (setup : SessionSetup) (start : Nat)
    (ms : List (Nat × SessionMessage)) :
    ((opening setup start).after setup ms).deadline.isSome =
      ((opening setup start).after setup ms).state.awaitsQuestion := by
  induction ms using List.reverseRecOn with
  | nil => rfl
  | append_singleton ms m =>
    rw [after_concat, turn, state_arm]
    exact isSome_deadline_arm ..

/-! ## Waiting without a break -/

/-- The session awaits a question before the events of a message and after each of them. -/
def AwaitsThroughout (setup : SessionSetup) (l : SessionLoop) (m : SessionMessage) : Prop :=
  ∀ es, es <+: l.eventsOn setup m → (l.state.applyAll es).awaitsQuestion

/-- After the messages of a run the session awaits a question and has done so without a break since
    a time, at which its loop first waited for it. -/
inductive AwaitsSince (setup : SessionSetup) (start : Nat) :
    List (Nat × SessionMessage) → Nat → Prop where
  | opens : AwaitsSince setup start [] start
  | begins {ms : List (Nat × SessionMessage)} {now : Nat} {m : SessionMessage} :
      ((opening setup start).after setup ms).state.awaitsQuestion = false →
      ((opening setup start).after setup (ms ++ [(now, m)])).state.awaitsQuestion →
      AwaitsSince setup start (ms ++ [(now, m)]) now
  | goesOn {ms : List (Nat × SessionMessage)} {since now : Nat} {m : SessionMessage} :
      AwaitsSince setup start ms since →
      ((opening setup start).after setup ms).AwaitsThroughout setup m →
      AwaitsSince setup start (ms ++ [(now, m)]) since

/-- A session that awaits a question before a message and after it has done so all along. -/
theorem awaitsThroughout_of_awaits (hw : l.state.awaitsQuestion) {m : SessionMessage}
    (hm : (l.state.applyAll (l.eventsOn setup m)).awaitsQuestion) :
    l.AwaitsThroughout setup m := by
  -- Whoever leaves the session waiting dispatches one event at the most.
  have hshort : (l.eventsOn setup m).length ≤ 1 := by
    rcases length_eventsOn_le_one_or setup l m with hle | ⟨q, id, hevents, -⟩
    · exact hle
    · rw [hevents] at hm
      simp [SessionState.applyAll, SessionState.apply, SessionState.awaitsQuestion] at hm
  intro es hes
  by_cases hnil : es = []
  · rw [hnil]
    exact hw
  · have hlen : (l.eventsOn setup m).length ≤ es.length := by
      have := List.length_pos_iff.2 hnil
      omega
    rw [hes.eq_of_length_le hlen]
    exact hm

theorem exists_awaitsSince {start : Nat} {ms : List (Nat × SessionMessage)}
    (hrun : IsRun setup (opening setup start) start ms)
    (hw : ((opening setup start).after setup ms).state.awaitsQuestion) :
    ∃ since, AwaitsSince setup start ms since := by
  induction ms using List.reverseRecOn with
  | nil => exact ⟨start, .opens⟩
  | append_singleton ms m ih =>
    obtain ⟨now, m⟩ := m
    cases hb : ((opening setup start).after setup ms).state.awaitsQuestion with
    | false => exact ⟨now, .begins hb hw⟩
    | true =>
      obtain ⟨since, hsince⟩ := ih hrun.of_append hb
      rw [after_concat, state_turn] at hw
      exact ⟨since, hsince.goesOn (awaitsThroughout_of_awaits hb hw)⟩

theorem AwaitsSince.awaits {start since : Nat} {ms : List (Nat × SessionMessage)}
    (h : AwaitsSince setup start ms since) :
    ((opening setup start).after setup ms).state.awaitsQuestion := by
  cases h with
  | opens => rfl
  | begins _ hw => exact hw
  | goesOn _ hw =>
    rw [after_concat, state_turn]
    exact hw _ (List.prefix_refl _)

/-- The deadline lies one timeout after the time at which the loop first waited. -/
theorem AwaitsSince.deadline_eq {start since : Nat} {ms : List (Nat × SessionMessage)}
    (h : AwaitsSince setup start ms since) :
    ((opening setup start).after setup ms).deadline = some (since + setup.loadingTimeout) := by
  have hw := h.awaits
  induction h with
  | opens => rfl
  | begins hb _ =>
    have hd := isSome_deadline_after_opening setup start ‹_›
    rw [hb, Option.isSome_eq_false_iff, Option.isNone_iff_eq_none] at hd
    rw [after_concat] at hw ⊢
    exact deadline_turn_of_none hd hw
  | goesOn hs _ ih =>
    rw [after_concat] at hw ⊢
    exact deadline_turn_of_some (ih hs.awaits) hw

/-- Nothing in the message gives the session its next question or ends its waiting. -/
def LeavesWaiting (setup : SessionSetup) (l : SessionLoop) : SessionMessage → Prop
  | .update u => ∀ e ∈ l.dispatched setup u, e = .ignoreUpdate ∨ ∃ id, e = .autoSkip id
  | .watchdog => False
  | _ => True

theorem LeavesWaiting.awaits_turn {m : SessionMessage} (hm : l.LeavesWaiting setup m)
    (h : l.state.Consistent) (hw : l.state.awaitsQuestion) (now : Nat) :
    (l.turn setup now m).state.awaitsQuestion := by
  rw [state_turn]
  cases m with
  | update u =>
    rw [eventsOn]
    simp only [LeavesWaiting] at hm
    generalize l.dispatched setup u = events at hm
    generalize l.state = s at hw
    induction events generalizing s with
    | nil => exact hw
    | cons e events ih =>
      obtain ⟨he, hm⟩ := List.forall_mem_cons.1 hm
      refine ih hm _ ?_
      obtain rfl | ⟨id, rfl⟩ := he
      · exact hw
      · simp [SessionState.apply, SessionState.awaitsQuestion]
  | command c =>
    have hl := h.isLocked_of_awaitsQuestion hw
    rw [eventsOn_command_of_none (SessionState.unanswered?_of_unlocked hl)]
    exact hw
  | written r => exact hw
  | watchdog => exact hm.elim

/-! ## After the end -/

/-- The effects of the messages of a run, in order. -/
def effects (setup : SessionSetup) :
    SessionLoop → List (Nat × SessionMessage) → List SessionEffect
  | _, [] => []
  | l, (now, m) :: rest => (l.step setup m).2 ++ effects setup (l.turn setup now m) rest

/-- The session has given up: it shows no question that could be answered, awaits none, and
    receives no update. -/
structure HasGivenUp (l : SessionLoop) : Prop where
  isReceiving : l.isReceiving = false
  isLocked : l.state.isLocked = false
  awaitsQuestion : l.state.awaitsQuestion = false
  deadline : l.deadline = none

theorem Sound.hasGivenUp_turn_watchdog (h : l.Sound) (setup : SessionSetup) {now : Nat}
    (hm : l.CanHandle now .watchdog) :
    (l.turn setup now .watchdog).HasGivenUp := by
  obtain ⟨deadline, hd, -⟩ := hm
  have hw : l.state.awaitsQuestion := by rw [← h.isSome_deadline, hd]; rfl
  have hafter : (l.turn setup now .watchdog).state.awaitsQuestion = false := by
    rw [state_turn]
    rfl
  refine ⟨isReceiving_turn_watchdog now, ?_, hafter, deadline_turn_eq_none hafter⟩
  rw [state_turn]
  exact h.consistent.isLocked_of_awaitsQuestion hw

/-- A message after the end dispatches nothing, and all it can do is to report how a write has
    ended. -/
theorem HasGivenUp.step_eq (h : l.HasGivenUp) (setup : SessionSetup) {now : Nat}
    {m : SessionMessage} (hm : l.CanHandle now m) :
    l.eventsOn setup m = [] ∧
      ((l.step setup m).2 = [] ∨ ∃ r, (l.step setup m).2 = l.commitNotice r) := by
  have hq := SessionState.unanswered?_of_unlocked h.isLocked
  cases m with
  | update u =>
    have ha : l.accepts u = false := by simp [accepts, h.isReceiving]
    refine ⟨by simp [eventsOn, dispatched, ha], .inl ?_⟩
    rw [step, onUpdate_of_not_accepts ha]
  | command c =>
    refine ⟨eventsOn_command_of_none hq c, .inl ?_⟩
    cases c with
    | submit => rw [step, onSubmit_of_none hq]
    | skip => rw [step, onSkip_of_none hq]
  | written r => exact ⟨rfl, .inr ⟨r, rfl⟩⟩
  | watchdog =>
    obtain ⟨deadline, hd, -⟩ := hm
    rw [h.deadline] at hd
    cases hd

theorem HasGivenUp.state_turn (h : l.HasGivenUp) {now : Nat} {m : SessionMessage}
    (hm : l.CanHandle now m) : (l.turn setup now m).state = l.state := by
  rw [SessionLoop.state_turn, (h.step_eq setup hm).1]
  rfl

theorem HasGivenUp.turn (h : l.HasGivenUp) {now : Nat} {m : SessionMessage}
    (hm : l.CanHandle now m) : (l.turn setup now m).HasGivenUp := by
  have hs : (l.turn setup now m).state = l.state := h.state_turn hm
  have hw : (l.turn setup now m).state.awaitsQuestion = false := by rw [hs, h.awaitsQuestion]
  refine ⟨?_, by rw [hs, h.isLocked], hw, deadline_turn_eq_none hw⟩
  rw [isReceiving_turn ?_, h.isReceiving]
  rintro rfl
  obtain ⟨deadline, hd, -⟩ := hm
  rw [h.deadline] at hd
  cases hd

theorem eq_notify_of_mem_commitNotice {r : CommitResult} {e : SessionEffect}
    (he : e ∈ l.commitNotice r) : ∃ n, e = .notify n ∧ n ≠ .timedOut := by
  unfold commitNotice at he
  split at he
  · split at he
    · exact ⟨_, List.mem_singleton.1 he, by simp⟩
    · cases he
  · exact ⟨_, List.mem_singleton.1 he, by simp⟩

/-- Whatever comes after the end, the session stays as it is and writes nothing more. -/
theorem HasGivenUp.after (h : l.HasGivenUp) {now : Nat} {ms : List (Nat × SessionMessage)}
    (hrun : IsRun setup l now ms) :
    (l.after setup ms).state = l.state ∧ (l.after setup ms).deadline = none ∧
      ∀ e ∈ effects setup l ms, ∃ n, e = .notify n ∧ n ≠ .timedOut := by
  induction ms generalizing l now with
  | nil => exact ⟨rfl, h.deadline, by simp [effects]⟩
  | cons m ms ih =>
    obtain ⟨next, m⟩ := m
    obtain ⟨-, hm, hrun⟩ := hrun
    obtain ⟨hs, hd, he⟩ := ih (h.turn hm) hrun
    refine ⟨hs.trans (h.state_turn hm), hd, fun e hmem => ?_⟩
    rcases List.mem_append.1 hmem with hmem | hmem
    · rcases (h.step_eq setup hm).2 with hnil | ⟨r, hr⟩
      · rw [hnil] at hmem
        cases hmem
      · exact eq_notify_of_mem_commitNotice (hr ▸ hmem)
    · exact he e hmem

/-- Only the watchdog reports that the session has given up. -/
theorem timedOut_not_mem_effects {m : SessionMessage} (hm : m ≠ .watchdog) :
    SessionEffect.notify .timedOut ∉ (l.step setup m).2 := by
  intro hmem
  have hn : SessionNotice.timedOut ∈ l.noticesFor setup m :=
    List.mem_filterMap.2 ⟨_, hmem, rfl⟩
  cases m with
  | update u =>
    obtain ⟨-, id, -, hid⟩ := mem_noticesFor_update.1 hn
    cases hid
  | command c =>
    rw [noticesFor_command] at hn
    cases hn
  | written r =>
    obtain ⟨n, hn, hne⟩ := eq_notify_of_mem_commitNotice hmem
    cases hn
    exact hne rfl
  | watchdog => exact hm rfl

/-- A session reports once at the most that it has given up. -/
theorem Sound.count_timedOut_le (h : l.Sound) {now : Nat} {ms : List (Nat × SessionMessage)}
    (hrun : IsRun setup l now ms) : (effects setup l ms).count (.notify .timedOut) ≤ 1 := by
  induction ms generalizing l now with
  | nil => exact Nat.zero_le 1
  | cons m ms ih =>
    obtain ⟨next, m⟩ := m
    obtain ⟨-, hm, hrun⟩ := hrun
    rw [effects, List.count_append]
    by_cases hw : m = .watchdog
    · subst hw
      obtain ⟨-, -, he⟩ := (h.hasGivenUp_turn_watchdog setup hm).after hrun
      have hrest : (effects setup (l.turn setup next .watchdog) ms).count (.notify .timedOut) = 0 :=
        List.count_eq_zero.2 fun hmem => by
          obtain ⟨n, hn, hne⟩ := he _ hmem
          cases hn
          exact hne rfl
      rw [hrest]
      exact Nat.le_refl 1
    · rw [List.count_eq_zero.2 (timedOut_not_mem_effects hw), Nat.zero_add]
      exact ih (h.turn hm) hrun

/-! ## Every run -/

/-- How the deadline, the watchdog and the end of a session hang together in a run. -/
structure Watched (setup : SessionSetup) (start : Nat) (ms : List (Nat × SessionMessage)) :
    Prop where
  /-- The loop waits with a deadline exactly while the session awaits a question. -/
  isSome_deadline : ((opening setup start).after setup ms).deadline.isSome =
    ((opening setup start).after setup ms).state.awaitsQuestion
  awaits_iff : ((opening setup start).after setup ms).state.awaitsQuestion ↔
    ∃ since, AwaitsSince setup start ms since
  /-- The deadline lies one timeout after the time at which the loop first waited. -/
  deadline_eq : ∀ since, AwaitsSince setup start ms since →
    ((opening setup start).after setup ms).deadline = some (since + setup.loadingTimeout)
  /-- What leaves the session waiting leaves the deadline where it is. -/
  deadline_turn : ((opening setup start).after setup ms).state.awaitsQuestion → ∀ now m,
    ((opening setup start).after setup ms).LeavesWaiting setup m →
    (((opening setup start).after setup ms).turn setup now m).deadline =
      ((opening setup start).after setup ms).deadline
  /-- The session gives up only after a full timeout of waiting without a break. -/
  full_timeout : ∀ before now m rest, ms = before ++ (now, m) :: rest →
    SessionEvent.loadTimeout ∈ ((opening setup start).after setup before).eventsOn setup m →
    ∃ since, AwaitsSince setup start before since ∧ since + setup.loadingTimeout ≤ now
  timedOut_once : (effects setup (opening setup start) ms).count (.notify .timedOut) ≤ 1
  /-- Once the session has given up nothing changes its state and no answer is written. -/
  settled : ∀ before now m rest, ms = before ++ (now, m) :: rest →
    SessionEvent.loadTimeout ∈ ((opening setup start).after setup before).eventsOn setup m →
    ((opening setup start).after setup ms).state =
        ((opening setup start).after setup (before ++ [(now, m)])).state ∧
      ∀ r, SessionEffect.write r ∉
        effects setup ((opening setup start).after setup (before ++ [(now, m)])) rest

/-- In every run of a session, over any clock that never goes back and any messages: the loop has a
    deadline exactly while a question is awaited, one timeout after it first waited for it; the
    session gives up only when it has awaited its question for a full timeout without a break, says
    so once, and never changes nor writes an answer again. -/
theorem watched_of_isRun {start : Nat} {ms : List (Nat × SessionMessage)}
    (hrun : IsRun setup (opening setup start) start ms) : Watched setup start ms where
  isSome_deadline := isSome_deadline_after_opening setup start ms
  awaits_iff := ⟨exists_awaitsSince hrun, fun ⟨_, h⟩ => h.awaits⟩
  deadline_eq := fun _ h => h.deadline_eq
  deadline_turn := by
    intro hw now m hm
    obtain ⟨since, hsince⟩ := exists_awaitsSince hrun hw
    have hc := ((sound_opening start).after hrun).consistent
    rw [hsince.deadline_eq]
    exact deadline_turn_of_some hsince.deadline_eq (hm.awaits_turn hc hw now)
  full_timeout := by
    rintro before now m rest rfl hmem
    obtain rfl := eq_watchdog_of_loadTimeout_mem hmem
    obtain ⟨⟨deadline, hd, hnow⟩, -⟩ := hrun.of_append_cons
    have hw := isSome_deadline_after_opening setup start before
    rw [hd, Option.isSome_some] at hw
    obtain ⟨since, hsince⟩ := exists_awaitsSince hrun.of_append hw.symm
    rw [hsince.deadline_eq] at hd
    cases hd
    exact ⟨since, hsince, hnow⟩
  timedOut_once := (sound_opening start).count_timedOut_le hrun
  settled := by
    rintro before now m rest rfl hmem
    obtain rfl := eq_watchdog_of_loadTimeout_mem hmem
    obtain ⟨hm, hrest⟩ := hrun.of_append_cons
    have hend := ((sound_opening start).after hrun.of_append).hasGivenUp_turn_watchdog setup hm
    rw [← after_concat] at hend
    obtain ⟨hs, -, he⟩ := hend.after hrest
    refine ⟨?_, fun r hr => ?_⟩
    · rw [← hs, ← after_append, List.append_assoc]
      rfl
    · obtain ⟨n, hn, -⟩ := he _ hr
      cases hn

/-- A skipped concept comes back, a write fails, and nothing else comes; the session gives up, and a
    poll result and an answer are too late. -/
theorem watched_of_lateAnswer :
    let setup : SessionSetup := ⟨"session", 1000, fun _ => "lock"⟩
    let skipping : List (Nat × SessionMessage) :=
      [(3, .update ⟨.found (.unreviewed "c"), .first⟩), (5, .command .skip)]
    let view := ((opening setup 0).after setup skipping).view
    let waiting : List (Nat × SessionMessage) :=
      skipping ++ [(7, .update ⟨.found (.unreviewed "c"), view⟩),
        (400, .written ⟨"d", "d", .error "offline"⟩)]
    let ms : List (Nat × SessionMessage) :=
      waiting ++ [(1005, .watchdog), (1006, .update ⟨.found (.unreviewed "e"), view⟩),
        (1007, .command (.submit "answer" true 1))]
    IsRun setup (opening setup 0) 0 ms ∧
      ((opening setup 0).after setup waiting).deadline = some 1005 ∧
      (effects setup (opening setup 0) ms).count (.notify .timedOut) ≤ 1 ∧
      Watched setup 0 ms := by
  intro setup skipping view waiting ms
  have hd : ((opening setup 0).after setup waiting).deadline = some 1005 := by decide
  have hrun : IsRun setup (opening setup 0) 0 ms :=
    ⟨by decide, trivial, by decide, trivial, by decide, trivial, by decide, trivial,
      by decide, ⟨1005, by decide, Nat.le_refl _⟩, by decide, trivial, by decide, trivial, trivial⟩
  have hw : Watched setup 0 ms := watched_of_isRun hrun
  exact ⟨hrun, hd, hw.timedOut_once, hw⟩

end SessionLoop

end SpacedReview
