import SpacedReview.Proofs.Session.Lock
import SpacedReview.Proofs.Session.Turns

/-!
# Locks are given up once

A question is put on show with a lock that was not used before, and a command of the learner takes
the lock away. With distinct locks, no lock is given up a second time.

## Main definitions

- `RunningSession.releaseSeen` — the question whose lock an action gives up
- `RunningSession.Released` — what is known of the locks that were given up

## Main statements

- `RunningSession.released_of_acts?` — no lock is given up twice in a run
- `RunningSession.act?_command_of_unlocked` — a command has no effect while no lock is held
-/

namespace SpacedReview

namespace SessionLoop

variable {setup : SessionSetup} {l : SessionLoop}

theorem locksUsed_arm (setup : SessionSetup) (now : Nat) (l : SessionLoop) :
    (l.arm setup now).locksUsed = l.locksUsed := by
  rw [arm_eq]

theorem locksUsed_le_dispatch (l : SessionLoop) (e : SessionEvent) :
    l.locksUsed ≤ (l.dispatch e).locksUsed := by
  cases e <;> simp [dispatch, SessionEvent.usesLock]

theorem locksUsed_le_foldl_dispatch (es : List SessionEvent) (l : SessionLoop) :
    l.locksUsed ≤ (es.foldl dispatch l).locksUsed := by
  induction es generalizing l with
  | nil => exact Nat.le_refl _
  | cons e es ih => exact Nat.le_trans (l.locksUsed_le_dispatch e) (ih (l.dispatch e))

theorem locksUsed_le_turn (now : Nat) (m : SessionMessage) :
    l.locksUsed ≤ (l.turn setup now m).locksUsed := by
  obtain ⟨l', h, ht⟩ := exists_stepped setup now l m
  rw [ht, locksUsed_arm]
  cases h with
  | overlooked | refused | written => exact Nat.le_refl _
  | routed => exact locksUsed_le_foldl_dispatch ..
  | submitted | skipped => exact locksUsed_le_dispatch ..
  | gaveUp => exact l.locksUsed_le_dispatch .loadTimeout

/-- A question that a message leaves unanswered was so before, or it is a new one that has used the
    next lock. A command leaves none. -/
theorem unanswered?_turn {now : Nat} {m : SessionMessage} {q : Question}
    (h : (l.turn setup now m).state.unanswered? = some q) :
    m.isCommand = false ∧ (l.state.unanswered? = some q ∨
      q.lock = setup.lock l.locksUsed ∧
        (l.turn setup now m).locksUsed = l.locksUsed + 1) := by
  obtain ⟨l', hs, ht⟩ := exists_stepped setup now l m
  rw [ht, state_arm] at h
  rw [ht, locksUsed_arm]
  cases hs with
  | overlooked | written | gaveUp => exact ⟨rfl, .inl h⟩
  | refused hn => rw [hn] at h; cases h
  | @routed u ha =>
    refine ⟨rfl, ?_⟩
    rw [state_foldl_dispatch] at h
    have hr := l.state.routed_route u.candidate (setup.lock l.locksUsed)
    generalize l.state.route u.candidate (setup.lock l.locksUsed) = events at h hr
    generalize u.candidate = c at hr
    cases hr with
    | ignored => exact .inl h
    | installed | exhausted =>
      obtain ⟨-, hq⟩ := SessionState.unanswered?_eq_some.1 h
      simp only [SessionState.applyAll, List.foldl_cons, List.foldl_nil, SessionState.apply,
        Option.some.injEq] at hq
      rw [← hq]
      exact .inr ⟨rfl, rfl⟩
    | emptied | passedOver =>
      obtain ⟨hl, -⟩ := SessionState.unanswered?_eq_some.1 h
      simp [SessionState.applyAll, SessionState.apply, SessionState.isLocked] at hl
  | submitted | skipped =>
    obtain ⟨hl, -⟩ := SessionState.unanswered?_eq_some.1 h
    simp [state_dispatch, SessionState.apply, SessionState.isLocked] at hl

theorem step_command_of_none (h : l.state.unanswered? = none) (c : SessionCommand) :
    l.step setup (.command c) = (l, []) := by
  cases c with
  | submit answer isCorrect elapsedMs => exact onSubmit_of_none h answer isCorrect elapsedMs
  | skip => exact onSkip_of_none h

theorem Sound.arm_eq_self (h : l.Sound) (now : Nat) : l.arm setup now = l := by
  have hd := h.isSome_deadline
  unfold SessionLoop.arm
  cases hw : l.state.awaitsQuestion <;> cases hn : l.deadline <;> simp [hw, hn] at hd ⊢

end SessionLoop

namespace RunningSession

variable {σ : Type} {s : RunningSession σ}

/-- While no lock is held, a command has no effect. -/
theorem act?_command_of_unlocked (hs : s.Sound) (hl : s.loop.state.isLocked = false)
    (c : SessionCommand) : s.act? (.command c) = some s := by
  have hstep : s.loop.step s.setup (.command c) = (s.loop, []) :=
    SessionLoop.step_command_of_none (SessionState.unanswered?_of_unlocked hl) c
  have harm : s.loop.arm s.setup s.now = s.loop := hs.loop.arm_eq_self s.now
  simp [act?, handle, hstep, perform, harm]

/-- The question whose lock an action gives up. -/
def releaseSeen (s : RunningSession σ) : SessionAction σ → List Question
  | .command _ => s.loop.state.unanswered?.toList
  | _ => []

theorem releaseSeen_eq_nil_or {a : SessionAction σ} {m : SessionMessage}
    (hm : s.message? a = some m) :
    m.isCommand = false ∧ s.releaseSeen a = [] ∨
      m.isCommand ∧ s.releaseSeen a = s.loop.state.unanswered?.toList := by
  cases a with
  | command c =>
    obtain rfl := Option.some.inj hm
    exact .inr ⟨rfl, rfl⟩
  | receive | written =>
    obtain ⟨_, -, rfl⟩ := Option.map_eq_some_iff.1 hm
    exact .inl ⟨rfl, rfl⟩
  | timeOut =>
    obtain rfl := Option.some.inj hm
    exact .inl ⟨rfl, rfl⟩
  | _ => cases hm

/-- What is known of the locks that were given up: they are different, they were used, and the lock
    of an unanswered question is not one of them. -/
structure Released (s : RunningSession σ) (locks : List String) : Prop where
  nodup : locks.Nodup
  of_mem : ∀ lock ∈ locks, ∃ i < s.loop.locksUsed, lock = s.setup.lock i
  of_unanswered : ∀ q, s.loop.state.unanswered? = some q →
    (∃ i < s.loop.locksUsed, q.lock = s.setup.lock i) ∧ q.lock ∉ locks

theorem Released.perm {locks locks' : List String} (h : s.Released locks)
    (hp : locks'.Perm locks) : s.Released locks' :=
  ⟨hp.nodup_iff.2 h.nodup, fun x hx => h.of_mem x (hp.mem_iff.1 hx),
    fun q hq => ⟨(h.of_unanswered q hq).1, fun hx => (h.of_unanswered q hq).2 (hp.mem_iff.1 hx)⟩⟩

theorem released_startOn (setup : SessionSetup) (backend : ReviewBackend σ) (store : σ)
    (date : Instant) (pollInterval : Nat) :
    (startOn setup backend store date pollInterval).Released [] := by
  refine ⟨List.nodup_nil, by simp, fun q hq => ?_⟩
  have hstate : (startOn setup backend store date pollInterval).loop.state =
      SessionLoop.start.state := SessionLoop.state_arm ..
  rw [hstate] at hq
  cases hq

theorem locksUsed_le_of_message {a : SessionAction σ} {t : RunningSession σ} (ha : s.Acted a t)
    {m : SessionMessage} (hm : s.message? a = some m) : s.loop.locksUsed ≤ t.loop.locksUsed := by
  have hloop := ha.loop_eq
  rw [hm] at hloop
  rw [hloop]
  exact SessionLoop.locksUsed_le_turn s.now m

/-- A lock that was used before an action is used after it. -/
theorem Acted.exists_lock {a : SessionAction σ} {t : RunningSession σ} (ha : s.Acted a t)
    {m : SessionMessage} (hm : s.message? a = some m) {lock : String}
    (hlock : ∃ i < s.loop.locksUsed, lock = s.setup.lock i) :
    ∃ i < t.loop.locksUsed, lock = t.setup.lock i := by
  obtain ⟨i, hi, he⟩ := hlock
  exact ⟨i, Nat.lt_of_lt_of_le hi (locksUsed_le_of_message ha hm), by rw [ha.setup_eq, he]⟩

theorem Released.kept {locks : List String} (h : s.Released locks)
    (hlock : Function.Injective s.setup.lock) {a : SessionAction σ} {t : RunningSession σ}
    (ha : s.Acted a t) {m : SessionMessage} (hm : s.message? a = some m) : t.Released locks := by
  have hloop := ha.loop_eq
  rw [hm] at hloop
  refine ⟨h.nodup, fun lock hmem => ha.exists_lock hm (h.of_mem lock hmem), fun q hq => ?_⟩
  rw [hloop] at hq
  obtain ⟨-, hq | ⟨hq, hused⟩⟩ := SessionLoop.unanswered?_turn hq
  · obtain ⟨hold, hnot⟩ := h.of_unanswered q hq
    exact ⟨ha.exists_lock hm hold, hnot⟩
  · refine ⟨⟨s.loop.locksUsed, by rw [hloop, hused]; omega, by rw [ha.setup_eq, hq]⟩, ?_⟩
    -- All locks that were given up were used before, and this one was not.
    intro hmem
    obtain ⟨i, hi, he⟩ := h.of_mem _ hmem
    rw [hq] at he
    exact absurd (hlock he) (by omega)

/-- A command gives up the lock of the unanswered question, and leaves none. -/
theorem Released.givenUp {locks : List String} (h : s.Released locks) {a : SessionAction σ}
    {t : RunningSession σ} (ha : s.Acted a t) {m : SessionMessage} (hm : s.message? a = some m)
    (hc : m.isCommand) :
    t.Released (locks ++ s.loop.state.unanswered?.toList.map Question.lock) := by
  refine ⟨?_, fun lock hmem => ?_, fun q hq => ?_⟩
  · cases hq : s.loop.state.unanswered? with
    | none => simpa using h.nodup
    | some q =>
      exact List.Nodup.append h.nodup (List.nodup_singleton _)
        (by simpa using (h.of_unanswered q hq).2)
  · rcases List.mem_append.1 hmem with hmem | hmem
    · exact ha.exists_lock hm (h.of_mem lock hmem)
    · obtain ⟨q, hq, rfl⟩ := List.mem_map.1 hmem
      exact ha.exists_lock hm (h.of_unanswered q (Option.mem_toList.1 hq)).1
  · have hloop := ha.loop_eq
    rw [hm] at hloop
    rw [hloop] at hq
    obtain ⟨hn, -⟩ := SessionLoop.unanswered?_turn hq
    rw [hn] at hc
    cases hc

theorem Released.acted {locks : List String} (h : s.Released locks)
    (hlock : Function.Injective s.setup.lock) {a : SessionAction σ} {t : RunningSession σ}
    (ha : s.Acted a t) :
    t.Released (locks ++ (s.releaseSeen a).map Question.lock) := by
  cases hm : s.message? a with
  | none =>
    have hloop := ha.loop_eq
    rw [hm] at hloop
    have hseen : s.releaseSeen a = [] := by
      cases a with
      | command => cases hm
      | _ => rfl
    rw [hseen, List.map_nil, List.append_nil]
    exact ⟨h.nodup, by rw [ha.setup_eq, hloop]; exact h.of_mem,
      by rw [ha.setup_eq, hloop]; exact h.of_unanswered⟩
  | some m =>
    rcases releaseSeen_eq_nil_or hm with ⟨-, hseen⟩ | ⟨hc, hseen⟩
    · rw [hseen, List.map_nil, List.append_nil]
      exact h.kept hlock ha hm
    · rw [hseen]
      exact h.givenUp ha hm hc

/-- With distinct locks, no lock is given up twice in a run. -/
theorem released_of_acts? (h : s.Released []) (hlock : Function.Injective s.setup.lock)
    {as : List (SessionAction σ)} {t : RunningSession σ} (hrun : s.acts? as = some t) :
    t.Released ((s.observed releaseSeen as).map Question.lock) := by
  refine acts?_induction (P := fun as t =>
    t.Released ((s.observed releaseSeen as).map Question.lock)) h ?_ hrun
  intro as t a u hrun ih ha
  have hstep := ih.acted (setup_of_acts? hrun ▸ hlock) ha
  rw [observed_concat _ hrun, List.map_append]
  exact hstep

end RunningSession

end SpacedReview
