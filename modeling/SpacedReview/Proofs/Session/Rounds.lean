import SpacedReview.Proofs.Review.Rotation
import SpacedReview.Proofs.Session.Commitment

/-!
# Round the queue

A learner who only skips is taken round the queue. `Standing` is where a session stands on this
way, and `Goes` are the steps that it takes, with all that is to be seen of them. Every message of
such a session is one of these steps, as long as the updates that count are about the question that
is next.

## Main definitions

- `Standing`, `Standing.Holds` — where a session stands, and what this says of its state
- `Goes` — the steps of a session whose learner only skips
- `SessionState.NextOf` — the result is about the question that is next

## Main statements

- `Standing.Holds.turn_update`, `Standing.Holds.turn_skip`, `Standing.Holds.turn_watchdog` — every
  message is a step
-/

namespace SpacedReview

/-! ## Positions in the queue -/

/-- The identifiers of the first concepts of a list. -/
def frontIds (cs : List Concept) (j : Nat) : IdSet :=
  .ofList ((cs.take j).map Concept.id)

theorem frontIds_succ {cs : List Concept} {j : Nat} {c : Concept} (h : cs[j]? = some c) :
    frontIds cs (j + 1) = (frontIds cs j).insert c.id := by
  have htake : (cs.take (j + 1)).map Concept.id = (cs.take j).map Concept.id ++ [c.id] := by
    rw [List.take_add_one, h, List.map_append]
    rfl
  rw [frontIds, htake, IdSet.ofList, List.foldl_append]
  rfl

/-- How many concepts are skipped when a question is awaited: as many as were shown since the queue
    was begun. All of them are when the queue is to be begun again. -/
def skippedBefore (n : Nat) : Nat → Nat
  | 0 => 0
  | i + 1 => i % n + 1

/-- The queue is begun again with a question. -/
def BeginsAgain (n i : Nat) : Prop :=
  0 < i ∧ i % n = 0

instance (n i : Nat) : Decidable (BeginsAgain n i) :=
  inferInstanceAs (Decidable (_ ∧ _))

section Positions

variable {n : Nat}

theorem skippedBefore_mod (i : Nat) : skippedBefore n i % n = i % n := by
  cases i with
  | zero => rfl
  | succ i => exact Nat.mod_add_mod i n 1

/-- How often the queue was begun again up to a question. -/
theorem succ_div_eq (i : Nat) :
    (i + 1) / n = i / n + if BeginsAgain n (i + 1) then 1 else 0 := by
  rw [Nat.succ_div]
  congr 1
  simp [BeginsAgain, Nat.dvd_iff_mod_eq_zero]

variable (hn : 0 < n) (i : Nat)

include hn

theorem succ_mod_cases : (i % n + 1 = n ∧ (i + 1) % n = 0) ∨
    (i % n + 1 < n ∧ (i + 1) % n = i % n + 1) := by
  have hlt := Nat.mod_lt i hn
  rcases Nat.lt_or_ge (i % n + 1) n with h | h
  · refine .inr ⟨h, ?_⟩
    rw [← Nat.mod_add_mod, Nat.mod_eq_of_lt h]
  · have he : i % n + 1 = n := by omega
    refine .inl ⟨he, ?_⟩
    rw [← Nat.mod_add_mod, he, Nat.mod_self]

theorem skippedBefore_le : skippedBefore n i ≤ n := by
  cases i with
  | zero => exact Nat.zero_le n
  | succ i => exact Nat.mod_lt i hn

theorem skippedBefore_eq_iff : skippedBefore n i = n ↔ BeginsAgain n i := by
  cases i with
  | zero => exact iff_of_false (Nat.ne_of_lt hn) fun h => Nat.lt_irrefl 0 h.1
  | succ i =>
    show i % n + 1 = n ↔ 0 < i + 1 ∧ (i + 1) % n = 0
    rcases succ_mod_cases hn i with ⟨h, h'⟩ | ⟨h, h'⟩ <;> omega

theorem skippedBefore_of_not (h : ¬ BeginsAgain n i) : skippedBefore n i = i % n := by
  cases i with
  | zero => rfl
  | succ i =>
    show i % n + 1 = (i + 1) % n
    rcases succ_mod_cases hn i with ⟨-, h'⟩ | ⟨-, h'⟩
    · exact absurd ⟨Nat.succ_pos i, h'⟩ h
    · exact h'.symm

end Positions

/-! ## What is seen of a message -/

/-- What is seen of a message: the questions that it puts on show, those that the learner skips, the
    updates that count, and the notices. -/
structure Sight where
  shown : List Question
  skipped : List Question
  counted : List PollUpdate
  notices : List SessionNotice

/-- Nothing is seen. -/
def Sight.nothing : Sight :=
  ⟨[], [], [], []⟩

/-- The question that an event puts on show. -/
def SessionEvent.question? : SessionEvent → Option Question
  | questionReceived q => some q
  | _ => none

/-- What is seen of a message of the loop. -/
def SessionLoop.sight (setup : SessionSetup) (l : SessionLoop) (m : SessionMessage) : Sight :=
  match m with
  | .update u => {
      shown := (l.dispatched setup u).filterMap SessionEvent.question?
      skipped := []
      counted := if l.accepts u then [u] else []
      notices := l.noticesFor setup m }
  | .command .skip => ⟨[], l.state.unanswered?.toList, [], l.noticesFor setup m⟩
  | _ => ⟨[], [], [], l.noticesFor setup m⟩

theorem SessionLoop.unanswered?_of_mem_shown {setup : SessionSetup} {l : SessionLoop}
    {m : SessionMessage} {q : Question} (h : q ∈ (l.sight setup m).shown) (now : Nat) :
    (l.turn setup now m).state.unanswered? = some q := by
  unfold sight at h
  split at h
  · rename_i u
    obtain ⟨event, hevent, hq⟩ := List.mem_filterMap.1 h
    cases event with
    | questionReceived q' =>
      obtain rfl := Option.some.inj hq
      have ha := accepts_of_mem_dispatched hevent
      rw [dispatched_of_accepts ha] at hevent
      exact (Installs.unanswered_turn ⟨ha, hevent⟩ now).1
    | _ => cases hq
  · cases h
  · cases h

/-! ## Where a session stands -/

/-- Where a session stands whose learner only skips. Questions are numbered from zero. -/
inductive Standing where
  /-- A question is on show. -/
  | shown (i : Nat)
  /-- A question is awaited. -/
  | awaiting (i : Nat)
  /-- A question is awaited with which the queue is begun again, and its concept was passed over. -/
  | passedOver (i : Nat)
  | gaveUp

/-- What is true of the loop of a session that stands there. -/
def Standing.Holds (cs : List Concept) (l : SessionLoop) : Standing → Prop
  | shown i => ∃ q, l.state.unanswered? = some q ∧
      cs[i % cs.length]? = some q.candidate.concept ∧
      l.state.skipped = frontIds cs (i % cs.length)
  | awaiting i => l.state.awaitsQuestion ∧
      l.state.skipped = frontIds cs (skippedBefore cs.length i) ∧ l.state.lastAutoSkipped = none
  | passedOver i => l.state.awaitsQuestion ∧ BeginsAgain cs.length i ∧
      l.state.skipped = frontIds cs cs.length ∧
      ∃ c, cs[0]? = some c ∧ l.state.lastAutoSkipped = some c.id
  | gaveUp => l.isReceiving = false

/-- A step of a session whose learner only skips, and what is seen of it. -/
inductive Goes (cs : List Concept) : Standing → Standing → Sight → Prop where
  /-- Only while a question is on show, updates count that change nothing. -/
  | stays {x : Standing} (counted : List PollUpdate) :
      (counted ≠ [] → ∃ i, x = .shown i) → Goes cs x x ⟨[], [], counted, []⟩
  | skips (i : Nat) (q : Question) :
      Goes cs (.shown i) (.awaiting (i + 1)) ⟨[], [q], [], []⟩
  | shows {i : Nat} {q : Question} (u : PollUpdate) : ¬ BeginsAgain cs.length i →
      cs[i % cs.length]? = some q.candidate.concept →
      Goes cs (.awaiting i) (.shown i) ⟨[q], [], [u], []⟩
  | passesOver {i : Nat} (u : PollUpdate) : BeginsAgain cs.length i →
      Goes cs (.awaiting i) (.passedOver i) ⟨[], [], [u], []⟩
  | beginsAgain {i : Nat} {q : Question} (u : PollUpdate) : BeginsAgain cs.length i →
      cs[i % cs.length]? = some q.candidate.concept →
      Goes cs (.passedOver i) (.shown i)
        ⟨[q], [], [u], [.exhausted q.candidate.concept.id]⟩
  | givesUp {x : Standing} : (∀ i, x ≠ .shown i) → Goes cs x .gaveUp ⟨[], [], [], [.timedOut]⟩

/-- The result is about the question that is next when so many concepts of the queue are skipped. -/
def SessionState.NextOf (cs : List Concept) (s : SessionState) (c : ReviewCandidate) : Prop :=
  ∀ j ≤ cs.length, s.skipped = frontIds cs j → ∃ f, c = .found f ∧
    cs[j % cs.length]? = some f.concept ∧ (f.concept.id ∈ s.skipped ↔ j = cs.length)

namespace Standing

variable {setup : SessionSetup} {l : SessionLoop} {cs : List Concept} {now : Nat} {x : Standing}

/-- Where the session stands depends on few parts of its loop. -/
theorem Holds.of_eq {l' : SessionLoop} (hx : x.Holds cs l) (hs : l'.state = l.state)
    (hr : l'.isReceiving = l.isReceiving) : x.Holds cs l' := by
  cases x with
  | gaveUp => exact hr.trans hx
  | _ =>
    simp only [Holds, hs]
    exact hx

theorem sight_update (l : SessionLoop) (u : PollUpdate) {events : List SessionEvent}
    (h : l.dispatched setup u = events) :
    l.sight setup (.update u) = {
      shown := events.filterMap SessionEvent.question?
      skipped := []
      counted := if l.accepts u then [u] else []
      notices := (events.flatMap (SessionLoop.noticesOf u.candidate)).filterMap
        SessionEffect.notice? } := by
  rw [SessionLoop.sight, SessionLoop.noticesFor, SessionLoop.step, SessionLoop.onUpdate_eq, h]

theorem state_turn_of_dispatched (now : Nat) {u : PollUpdate} {events : List SessionEvent}
    (h : l.dispatched setup u = events) :
    (l.turn setup now (.update u)).state = l.state.applyAll events := by
  rw [SessionLoop.state_turn_update, h]

/-- A session that awaits a question shows the one that comes. If its concept is skipped, it passes
    over it at first, and forgets the skipped ones when it comes again. -/
theorem dispatched_of_awaits (setup : SessionSetup) (hl : l.Sound)
    (hw : l.state.awaitsQuestion) {u : PollUpdate} (ha : l.accepts u) {f : FoundCandidate}
    (hf : u.candidate = .found f) :
    let shows : SessionEvent := .questionReceived ⟨f, setup.lock l.locksUsed⟩
    (f.concept.id ∉ l.state.skipped ∧ l.dispatched setup u = [shows]) ∨
    (f.concept.id ∈ l.state.skipped ∧ l.state.lastAutoSkipped = some f.concept.id ∧
      l.dispatched setup u = [.clearSkipped, shows]) ∨
    (f.concept.id ∈ l.state.skipped ∧ l.state.lastAutoSkipped ≠ some f.concept.id ∧
      l.dispatched setup u = [.autoSkip f.concept.id]) := by
  have hopen := hl.consistent.isOpen_of_awaitsQuestion hw
  have hr := l.state.routed_route u.candidate (setup.lock l.locksUsed)
  rw [SessionLoop.dispatched_of_accepts ha]
  generalize l.state.route u.candidate (setup.lock l.locksUsed) = events at hr
  rw [hf] at hr
  cases hr with
  | ignored hi => simpa using hi hopen
  | installed _ hnot => exact .inl ⟨hnot, rfl⟩
  | exhausted _ hin hlast => exact .inr (.inl ⟨hin, hlast, rfl⟩)
  | passedOver _ hin hlast => exact .inr (.inr ⟨hin, hlast, rfl⟩)

theorem Holds.turn_awaiting (hl : l.Sound) (hcs : cs ≠ []) {i : Nat}
    (hx : (awaiting i).Holds cs l) {u : PollUpdate} (ha : l.accepts u)
    (hu : l.state.NextOf cs u.candidate) :
    ∃ y : Standing, y.Holds cs (l.turn setup now (.update u)) ∧
      Goes cs (.awaiting i) y (l.sight setup (.update u)) := by
  have hn : 0 < cs.length := List.length_pos_iff.2 hcs
  obtain ⟨hw, hskipped, hmarker⟩ := hx
  obtain ⟨f, hf, hget, hmem⟩ := hu _ (skippedBefore_le hn i) hskipped
  rw [skippedBefore_mod] at hget
  rw [skippedBefore_eq_iff hn] at hmem
  rcases dispatched_of_awaits setup hl hw ha hf with
    ⟨hnot, hd⟩ | ⟨-, hlast, -⟩ | ⟨hin, -, hd⟩
  · have hb : ¬ BeginsAgain cs.length i := fun hb => hnot (hmem.2 hb)
    have hstate := state_turn_of_dispatched now hd
    rw [sight_update l u hd, if_pos ha]
    refine ⟨.shown i, ⟨⟨f, setup.lock l.locksUsed⟩, ?_, hget, ?_⟩, .shows u hb hget⟩
    · rw [hstate]
      rfl
    · rw [hstate, ← skippedBefore_of_not hn i hb]
      exact hskipped
  · rw [hmarker] at hlast
    cases hlast
  · have hb : BeginsAgain cs.length i := hmem.1 hin
    have hstate := state_turn_of_dispatched now hd
    rw [sight_update l u hd, if_pos ha]
    refine ⟨.passedOver i, ⟨?_, hb, ?_, f.concept, ?_, ?_⟩, .passesOver u hb⟩
    · rw [hstate]
      simp [SessionState.applyAll, SessionState.apply, SessionState.awaitsQuestion]
    · rw [hstate, ← (skippedBefore_eq_iff hn i).2 hb]
      exact hskipped
    · rw [← hb.2]
      exact hget
    · rw [hstate]
      rfl

theorem Holds.turn_passedOver (hl : l.Sound) {i : Nat} (hx : (passedOver i).Holds cs l)
    {u : PollUpdate} (ha : l.accepts u) (hu : l.state.NextOf cs u.candidate) :
    ∃ y : Standing, y.Holds cs (l.turn setup now (.update u)) ∧
      Goes cs (.passedOver i) y (l.sight setup (.update u)) := by
  obtain ⟨hw, hb, hskipped, c, hc, hmarker⟩ := hx
  obtain ⟨f, hf, hget, hmem⟩ := hu _ (Nat.le_refl _) hskipped
  rw [Nat.mod_self, hc, Option.some.injEq] at hget
  subst hget
  have hget : cs[i % cs.length]? = some f.concept := by rw [hb.2, hc]
  rcases dispatched_of_awaits setup hl hw ha hf with
    ⟨hnot, -⟩ | ⟨-, -, hd⟩ | ⟨-, hlast, -⟩
  · exact absurd (hmem.2 rfl) hnot
  · have hstate := state_turn_of_dispatched now hd
    rw [sight_update l u hd, if_pos ha, hf]
    refine ⟨.shown i, ⟨⟨f, setup.lock l.locksUsed⟩, ?_, hget, ?_⟩, .beginsAgain u hb hget⟩
    · rw [hstate]
      rfl
    · rw [hstate, hb.2]
      rfl
  · exact absurd hmarker hlast

/-- An update that counts takes a session that awaits a question to the next place. -/
theorem Holds.turn_accepted (hl : l.Sound) (hcs : cs ≠ []) (hx : x.Holds cs l) {u : PollUpdate}
    (ha : l.accepts u) (hu : l.state.NextOf cs u.candidate) :
    ∃ y : Standing, y.Holds cs (l.turn setup now (.update u)) ∧
      Goes cs x y (l.sight setup (.update u)) := by
  cases x with
  | gaveUp =>
    obtain ⟨hreceiving, -⟩ := SessionLoop.accepts_iff.1 ha
    rw [Holds] at hx
    rw [hx] at hreceiving
    cases hreceiving
  | shown i =>
    obtain ⟨q, hq, -⟩ := id hx
    have hignored : l.dispatched setup u = [.ignoreUpdate] := by
      rw [SessionLoop.dispatched_of_accepts ha]
      exact SessionState.route_of_locked (SessionState.unanswered?_eq_some.1 hq).1 _ _
    have hstate := state_turn_of_dispatched now hignored
    rw [sight_update l u hignored, if_pos ha]
    refine ⟨.shown i, hx.of_eq hstate (SessionLoop.isReceiving_turn (by simp) now), ?_⟩
    exact .stays [u] fun _ => ⟨i, rfl⟩
  | awaiting i => exact hx.turn_awaiting hl hcs ha hu
  | passedOver i => exact hx.turn_passedOver hl ha hu

theorem Holds.turn_update (hl : l.Sound) (hcs : cs ≠ []) (hx : x.Holds cs l) {u : PollUpdate}
    (hu : l.accepts u → l.state.NextOf cs u.candidate) :
    ∃ y : Standing, y.Holds cs (l.turn setup now (.update u)) ∧
      Goes cs x y (l.sight setup (.update u)) := by
  cases ha : l.accepts u with
  | true => exact hx.turn_accepted hl hcs ha (hu ha)
  | false =>
    have hnone : l.dispatched setup u = [] := by simp [SessionLoop.dispatched, ha]
    have hstate := state_turn_of_dispatched now hnone
    rw [sight_update l u hnone, ha]
    exact ⟨x, hx.of_eq hstate (SessionLoop.isReceiving_turn (by simp) now), .stays [] (by simp)⟩

theorem Holds.turn_skip (hl : l.Sound) (hx : x.Holds cs l) :
    ∃ y : Standing, y.Holds cs (l.turn setup now (.command .skip)) ∧
      Goes cs x y (l.sight setup (.command .skip)) := by
  have hreceiving : (l.turn setup now (.command .skip)).isReceiving = l.isReceiving :=
    SessionLoop.isReceiving_turn (by simp) now
  have hstate : (l.turn setup now (.command .skip)).state = l.onSkip.1.state :=
    SessionLoop.state_arm ..
  have hsight : l.sight setup (.command .skip) = ⟨[], l.state.unanswered?.toList, [], []⟩ := by
    rw [SessionLoop.sight, SessionLoop.noticesFor_command]
  rw [hsight]
  cases hq : l.state.unanswered? with
  | none =>
    rw [SessionLoop.onSkip_of_none hq] at hstate
    exact ⟨x, hx.of_eq hstate hreceiving, .stays [] (by simp)⟩
  | some q =>
    rw [SessionLoop.onSkip_of_unanswered hq] at hstate
    obtain ⟨hlocked, -⟩ := SessionState.unanswered?_eq_some.1 hq
    cases x with
    | shown i =>
      obtain ⟨q', hq', hget, hskipped⟩ := hx
      obtain rfl := Option.some.inj (hq.symm.trans hq')
      refine ⟨.awaiting (i + 1), ⟨?_, ?_, ?_⟩, .skips i q⟩
      · rw [hstate]
        simp [SessionLoop.state_dispatch, SessionState.apply, SessionState.awaitsQuestion]
      · rw [hstate]
        show l.state.skipped.insert q.candidate.concept.id = frontIds cs (i % cs.length + 1)
        rw [frontIds_succ hget, hskipped]
      · rw [hstate]
        exact hl.consistent.lastAutoSkipped_eq_none hlocked
    | awaiting i | passedOver i =>
      -- A session that awaits a question holds no lock.
      rw [hl.consistent.isLocked_of_awaitsQuestion hx.1] at hlocked
      cases hlocked
    | gaveUp =>
      have hphase := (hl.consistent.isLocked_iff.1 hlocked).1
      rw [hl.phase_of_not_receiving hx] at hphase
      cases hphase

theorem Holds.turn_watchdog (hl : l.Sound) (hm : l.CanHandle now .watchdog)
    (hx : x.Holds cs l) :
    ∃ y : Standing, y.Holds cs (l.turn setup now .watchdog) ∧
      Goes cs x y (l.sight setup .watchdog) := by
  obtain ⟨deadline, hd, -⟩ := hm
  have hw : l.state.awaitsQuestion := by
    rw [← hl.isSome_deadline, hd]
    rfl
  refine ⟨.gaveUp, SessionLoop.isReceiving_turn_watchdog now, .givesUp ?_⟩
  rintro i rfl
  obtain ⟨q, hq, -⟩ := hx
  have hlocked := (SessionState.unanswered?_eq_some.1 hq).1
  rw [hl.consistent.isLocked_of_awaitsQuestion hw] at hlocked
  cases hlocked

end Standing

end SpacedReview
