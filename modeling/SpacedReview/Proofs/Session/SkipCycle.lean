import SpacedReview.Proofs.Review.Rotation
import SpacedReview.Proofs.Session.Exhaustion
import SpacedReview.Proofs.Session.Rounds
import SpacedReview.Proofs.Session.WakeUp

/-!
# Skipping goes round the queue

While the store and the date stay as they are, a learner who only skips is shown the concepts of the
queue one after the other and over again. Each time round, the session says once that the due
concepts are exhausted, and begins again with nothing skipped. After a skip, the second update that
counts brings the next question at the latest.

## Main definitions

- `Tour` — several steps of a session whose learner only skips
- `RunningSession.sights` — what is seen in a run
- `RunningSession.RoundTrip` — what there is to see while the learner goes round the queue

## Main statements

- `RunningSession.goesRound_of_askableQueue` — every run in which the learner only skips
-/

namespace SpacedReview

/-! ## Several steps -/

instance : Append Sight :=
  ⟨fun o p => ⟨o.shown ++ p.shown, o.skipped ++ p.skipped, o.counted ++ p.counted,
    o.notices ++ p.notices⟩⟩

/-- Several steps, with all that is to be seen of them. -/
inductive Tour (cs : List Concept) (x : Standing) : Standing → Sight → Prop where
  | refl : Tour cs x x .nothing
  | step {y z : Standing} {o p : Sight} : Tour cs x y o → Goes cs y z p → Tour cs x z (o ++ p)

/-- The notice says that the due concepts are exhausted. -/
def SessionNotice.isExhausted : SessionNotice → Bool
  | exhausted _ => true
  | _ => false

/-- A question that is put on show is the one that was awaited, and the queue is begun again with it
    if a notice says so. -/
theorem Goes.of_mem_shown {cs : List Concept} {x y : Standing} {o : Sight} (h : Goes cs x y o)
    {q : Question} (hq : q ∈ o.shown) :
    ∃ i, (x = .awaiting i ∨ x = .passedOver i) ∧ y = .shown i ∧ o.shown = [q] ∧
      cs[i % cs.length]? = some q.candidate.concept ∧
      o.notices = if BeginsAgain cs.length i then [.exhausted q.candidate.concept.id] else [] := by
  cases h with
  | stays | skips | passesOver | givesUp => cases hq
  | @shows i q' u hb hget =>
    obtain rfl := List.mem_singleton.1 hq
    exact ⟨i, .inl rfl, rfl, rfl, hget, (if_neg hb).symm⟩
  | @beginsAgain i q' u hb hget =>
    obtain rfl := List.mem_singleton.1 hq
    exact ⟨i, .inr rfl, rfl, rfl, hget, (if_pos hb).symm⟩

theorem Goes.of_mem_skipped {cs : List Concept} {x y : Standing} {o : Sight} (h : Goes cs x y o)
    {q : Question} (hq : q ∈ o.skipped) : ∃ i, x = .shown i ∧ y = .awaiting (i + 1) := by
  cases h with
  | skips i => exact ⟨i, rfl, rfl⟩
  | _ => cases hq

namespace Tour

variable {cs : List Concept} {x : Standing} {o : Sight}

/-- The questions on show and the skips are counted by where the session stands. -/
def Counts (shown skipped : Nat) : Standing → Prop
  | .shown i => shown = i + 1 ∧ skipped = i
  | .awaiting i | .passedOver i => shown = i ∧ skipped = i
  | .gaveUp => shown = skipped

theorem counts (h : Tour cs (.awaiting 0) x o) : Counts o.shown.length o.skipped.length x := by
  induction h with
  | refl => exact ⟨rfl, rfl⟩
  | @step y z o p _ hg ih =>
    show Counts (o.shown ++ p.shown).length (o.skipped ++ p.skipped).length z
    rw [List.length_append, List.length_append]
    cases hg with
    | stays | passesOver => exact ih
    | skips | shows | beginsAgain => exact ⟨by simpa using ih.1, by simpa using ih.2⟩
    | givesUp hx =>
      cases y with
      | shown i => exact absurd rfl (hx i)
      | awaiting i | passedOver i => exact ih.1.trans ih.2.symm
      | gaveUp => exact ih

/-- The number of the question that is put on show is the number of those that were. -/
theorem length_shown (h : Tour cs (.awaiting 0) x o) {i : Nat}
    (hx : x = .awaiting i ∨ x = .passedOver i) : o.shown.length = i := by
  have hc := h.counts
  rcases hx with rfl | rfl
  · exact hc.1
  · exact hc.1

theorem getElem?_shown (h : Tour cs (.awaiting 0) x o) {i : Nat} {q : Question}
    (hq : o.shown[i]? = some q) : cs[i % cs.length]? = some q.candidate.concept := by
  induction h generalizing q with
  | refl => cases hq
  | @step y z o p ho hg ih =>
    have hq : (o.shown ++ p.shown)[i]? = some q := hq
    rcases Nat.lt_or_ge i o.shown.length with hi | hi
    · rw [List.getElem?_append_left hi] at hq
      exact ih hq
    · -- A step puts one question on show at most, so that this is the one it awaited.
      rw [List.getElem?_append_right hi] at hq
      obtain ⟨j, hy, -, hp, hget, -⟩ := hg.of_mem_shown (List.mem_of_getElem? hq)
      rw [hp, List.getElem?_singleton] at hq
      have hlen := ho.length_shown hy
      have hi : i = j := by
        by_contra hne
        rw [if_neg (by omega)] at hq
        cases hq
      rw [hi]
      exact hget

/-- That the due concepts are exhausted is said once for each time that the queue is begun again. -/
theorem exhausted (h : Tour cs (.awaiting 0) x o) {c : Concept} (hc : cs[0]? = some c) :
    o.notices.filter SessionNotice.isExhausted =
      List.replicate ((o.shown.length - 1) / cs.length) (.exhausted c.id) := by
  induction h with
  | refl => simp [Sight.nothing]
  | @step y z o p ho hg ih =>
    show (o.notices ++ p.notices).filter _ =
      List.replicate (((o.shown ++ p.shown).length - 1) / cs.length) _
    rw [List.filter_append, ih]
    cases hp : p.shown with
    | nil =>
      have hnone : p.notices.filter SessionNotice.isExhausted = [] := by
        cases hg with
        | shows | beginsAgain => cases hp
        | _ => rfl
      rw [hnone, List.append_nil, List.append_nil]
    | cons q qs =>
      obtain ⟨i, hy, -, hshown, hget, hnotices⟩ := hg.of_mem_shown (hp ▸ List.mem_cons_self)
      have hlen := ho.length_shown hy
      rw [← hp, hshown, hnotices, List.length_append, hlen]
      -- The number of the question tells whether a period ends with it.
      cases i with
      | zero => simp [BeginsAgain]
      | succ k =>
        show _ = List.replicate ((k + 1) / cs.length) _
        rw [succ_div_eq, Nat.add_sub_cancel]
        by_cases hb : BeginsAgain cs.length (k + 1)
        · have hcq : q.candidate.concept = c := by
            rw [hb.2, hc] at hget
            exact (Option.some.inj hget).symm
          rw [if_pos hb, if_pos hb, hcq, List.replicate_add]
          rfl
        · simp [if_neg hb]

/-- While a question is awaited, the updates that counted are told by where the session stands. -/
def Waits (i counted : Nat) : Standing → Prop
  | .shown _ => False
  | .awaiting j => j = i ∧ counted = 0
  | .passedOver j => j = i ∧ counted = 1
  | .gaveUp => counted ≤ 1

theorem Waits.le_one {i n : Nat} : ∀ {y : Standing}, Waits i n y → n ≤ 1
  | .awaiting _, h => by simp [h.2]
  | .passedOver _, h => h.2.le
  | .gaveUp, h => h

theorem Waits.goes {i n : Nat} {y z : Standing} {p : Sight} (h : Waits i n y) (hg : Goes cs y z p)
    (hnone : p.shown = []) : Waits i (n + p.counted.length) z := by
  cases hg with
  | stays counted hcounted =>
    have hnil : counted = [] := by
      by_contra hne
      obtain ⟨j, rfl⟩ := hcounted hne
      exact h
    simpa [hnil] using h
  | skips => exact h.elim
  | shows | beginsAgain => cases hnone
  | passesOver => exact ⟨h.1, by simp [h.2]⟩
  | givesUp => exact h.le_one

/-- Before the next question comes, one update counts at most. -/
theorem length_counted {i : Nat} (h : Tour cs (.awaiting i) x o) (hnone : o.shown = []) :
    o.counted.length ≤ 1 := by
  have hwaits : Waits i o.counted.length x := by
    induction h with
    | refl => exact ⟨rfl, rfl⟩
    | @step y z o p _ hg ih =>
      obtain ⟨ho, hp⟩ : o.shown = [] ∧ p.shown = [] := List.append_eq_nil_iff.1 hnone
      show Waits i (o.counted ++ p.counted).length z
      rw [List.length_append]
      exact (ih ho).goes hg hp
  exact hwaits.le_one

end Tour

/-! ## Runs -/

/-- The action is one of a session whose learner only skips, while nothing is changed from outside
    and the date stands still. -/
def SessionAction.OnlySkips {σ : Type} (now : Instant) : SessionAction σ → Prop
  | setDate date => date = now
  | edit _ => False
  | command (.submit _ _ _) => False
  | _ => True

/-- What a session asks next is about the next concept of the queue. -/
def Asks {σ : Type} [ReviewStore σ] (e : Engine) (store : σ) (now : Instant)
    (cs : List Concept) : Prop :=
  ∀ (s : SessionState) c, nextCandidate e store now s.skipped.ids = .ok c → s.NextOf cs c

theorem AskableQueue.asks {σ : Type} [ReviewStore σ] {e : Engine} {store : σ} {now : Instant}
    {cs : List Concept} (h : AskableQueue store e now cs) (hne : cs ≠ []) :
    Asks e store now cs := by
  intro s c hc j hj hskipped
  obtain ⟨d, hd⟩ := List.exists_mem_of_ne_nil cs hne
  obtain ⟨f, rfl⟩ := exists_found_of_askable ((h.mem_iff d).1 hd) hc
  have hputOff : ∀ d ∈ cs, d.id ∈ s.skipped.ids ↔ d.id ∈ (cs.take j).map Concept.id := by
    intro d _
    rw [hskipped]
    exact IdSet.mem_ofList
  obtain ⟨hget, hback⟩ := h.getElem?_of_found (List.take_append_drop j cs).symm hne hputOff hc
  rw [List.length_take, Nat.min_eq_left hj] at hget
  rw [List.drop_eq_nil_iff] at hback
  exact ⟨f, rfl, hget, hback.trans ⟨fun h => Nat.le_antisymm hj h, fun h => h.symm.le⟩⟩

namespace RunningSession

/-- What is seen of an action. -/
def sight {σ : Type} (s : RunningSession σ) (a : SessionAction σ) : Sight :=
  match s.message? a with
  | some m => s.loop.sight s.setup m
  | none => .nothing

/-- What is seen in a run. -/
def sights {σ : Type} (s : RunningSession σ) (as : List (SessionAction σ)) : Sight where
  shown := s.observed (fun s a => (s.sight a).shown) as
  skipped := s.observed (fun s a => (s.sight a).skipped) as
  counted := s.observed (fun s a => (s.sight a).counted) as
  notices := s.observed (fun s a => (s.sight a).notices) as

theorem sights_concat {σ : Type} {s : RunningSession σ} {as : List (SessionAction σ)}
    {t : RunningSession σ} (h : s.acts? as = some t) (a : SessionAction σ) :
    s.sights (as ++ [a]) = s.sights as ++ t.sight a := by
  simp only [sights, observed_concat _ h]
  rfl

theorem Acted.unanswered?_of_mem_shown {σ : Type} {s t : RunningSession σ}
    {a : SessionAction σ} (ha : s.Acted a t) {q : Question} (hq : q ∈ (s.sight a).shown) :
    t.loop.state.unanswered? = some q := by
  rw [ha.loop_eq]
  unfold sight at hq
  cases hm : s.message? a with
  | none =>
    rw [hm] at hq
    cases hq
  | some m =>
    rw [hm] at hq
    exact SessionLoop.unanswered?_of_mem_shown hq s.now

section Runs

variable {σ : Type} [ReviewStore σ] {s : RunningSession σ} {e : Engine} {store : σ}
  {now : Instant} {cs : List Concept}

/-- What a session whose learner only skips does not change, and where its updates come from. -/
structure Cycling (e : Engine) (store : σ) (now : Instant) (s : RunningSession σ) : Prop where
  sound : s.Sound
  backend_eq : s.backend = .service e
  store_eq : s.store = store
  date_eq : s.date = now
  fetchDate_eq : s.fetchDate = now
  writes_eq : s.writes = []
  carries : s.poller.Carries (fun v => v.UpTo s.loop.view) fun u =>
    u.view.UpTo s.loop.view ∧ nextCandidate e store now u.view.putOff = .ok u.candidate

theorem cycling_start (setup : SessionSetup) (e : Engine) (store : σ) (now : Instant)
    (pollInterval : Nat) : (start setup e store now pollInterval).Cycling e store now where
  sound := sound_startOn setup (.service e) store now pollInterval
  backend_eq := rfl
  store_eq := rfl
  date_eq := rfl
  fetchDate_eq := rfl
  writes_eq := rfl
  carries := carries_startOn setup (.service e) store now pollInterval _ _

theorem Cycling.acted (h : s.Cycling e store now) {a : SessionAction σ} {t : RunningSession σ}
    (ha : s.Acted a t) (honly : a.OnlySkips now) : t.Cycling e store now := by
  have hcarries := ha.carries_view h.sound h.carries fun u hu => by
    rw [outcome, h.backend_eq, h.store_eq, h.fetchDate_eq] at hu
    split at hu
    · rename_i c hc
      rw [← Option.some.inj hu]
      exact hc
    · cases hu
  have hwrites := h.writes_eq
  -- Without answers there are no writes, and nothing else changes the store.
  have hrest : t.store = store ∧ t.date = now ∧ t.fetchDate = now ∧ t.writes = [] := by
    cases ha with
    | setDate date => exact ⟨h.store_eq, honly, h.fetchDate_eq, hwrites⟩
    | edit => exact honly.elim
    | startFetch | startViewFetch => exact ⟨h.store_eq, h.date_eq, h.date_eq, hwrites⟩
    | receive =>
      refine ⟨h.store_eq, h.date_eq, h.fetchDate_eq, ?_⟩
      rw [writes_handle]
      exact (List.append_nil _).trans hwrites
    | command c =>
      cases c with
      | submit => exact honly.elim
      | skip =>
        refine ⟨h.store_eq, h.date_eq, h.fetchDate_eq, ?_⟩
        rw [writes_handle]
        exact (List.append_nil _).trans hwrites
    | timeOut =>
      refine ⟨h.store_eq, h.date_eq, h.fetchDate_eq, ?_⟩
      show (s.handle .watchdog).writes = []
      rw [writes_handle]
      exact (List.append_nil _).trans hwrites
    | dateWrite hs | write _ hs | failWrite _ hs | written hs => simp [hwrites] at hs
    | _ => exact ⟨h.store_eq, h.date_eq, h.fetchDate_eq, hwrites⟩
  obtain ⟨hstore, hdate, hfetchDate, hwrites⟩ := hrest
  exact ⟨h.sound.acted ha, ha.backend_eq.trans h.backend_eq, hstore, hdate, hfetchDate, hwrites,
    hcarries⟩

theorem Cycling.nextOf (h : s.Cycling e store now) (hasks : Asks e store now cs) {u : PollUpdate}
    {rest : List PollUpdate} (hu : s.poller.channel = u :: rest) (ha : s.loop.accepts u) :
    s.loop.state.NextOf cs u.candidate := by
  obtain ⟨hview, hnext⟩ := view_eq_of_carries h.carries
    (Poller.mem_inTransit_of_mem_channel (hu ▸ List.mem_cons_self)) ha
  -- The update was fetched under the view that the skipped concepts are published in.
  have hputOff : u.view.putOff = s.loop.state.skipped.ids := by
    rw [hview, PollView.putOff, h.sound.loop.skips_view]
    rfl
  rw [hputOff] at hnext
  exact hasks _ _ hnext

theorem sight_notices (setup : SessionSetup) (l : SessionLoop) (m : SessionMessage) :
    (l.sight setup m).notices = l.noticesFor setup m := by
  unfold SessionLoop.sight
  split <;> rfl

/-- Every action of a session whose learner only skips is a step round the queue. -/
theorem Cycling.goes (h : s.Cycling e store now) (hasks : Asks e store now cs) (hne : cs ≠ [])
    {x : Standing} (hx : x.Holds cs s.loop) {a : SessionAction σ} {t : RunningSession σ}
    (ha : s.Acted a t) (honly : a.OnlySkips now) :
    ∃ y : Standing, y.Holds cs t.loop ∧ Goes cs x y (s.sight a) ∧
      t.notices = s.notices ++ (s.sight a).notices := by
  have hloop := ha.loop_eq
  have hnotices := ha.notices_eq
  unfold sight
  cases hm : s.message? a with
  | none =>
    rw [hm] at hloop hnotices
    exact ⟨x, by rw [hloop]; exact hx, .stays [] (by simp), hnotices⟩
  | some m =>
    have hcan := ha.canHandle hm
    rw [hm] at hloop hnotices
    rw [hloop, sight_notices]
    suffices hgoes : ∃ y : Standing, y.Holds cs (s.loop.turn s.setup s.now m) ∧
        Goes cs x y (s.loop.sight s.setup m) by
      obtain ⟨y, hy, hg⟩ := hgoes
      exact ⟨y, hy, hg, hnotices⟩
    cases ha with
    | @receive u rest hu =>
      simp only [message?, hu, List.head?_cons, Option.map_some, Option.some.injEq] at hm
      subst hm
      exact hx.turn_update h.sound.loop hne (h.nextOf hasks hu)
    | command c =>
      obtain rfl := Option.some.inj hm
      cases c with
      | submit => exact honly.elim
      | skip => exact hx.turn_skip h.sound.loop
    | written hs => simp [h.writes_eq] at hs
    | timeOut =>
      obtain rfl := Option.some.inj hm
      exact hx.turn_watchdog h.sound.loop hcan
    | _ => cases hm

/-- Every run of a session whose learner only skips is a tour round the queue. -/
theorem Cycling.tour (h : s.Cycling e store now) (hasks : Asks e store now cs) (hne : cs ≠ [])
    {x : Standing} (hx : x.Holds cs s.loop) {as : List (SessionAction σ)} {t : RunningSession σ}
    (hrun : s.acts? as = some t) (honly : ∀ a ∈ as, a.OnlySkips now) :
    t.Cycling e store now ∧ ∃ y : Standing, y.Holds cs t.loop ∧ Tour cs x y (s.sights as) ∧
      t.notices = s.notices ++ (s.sights as).notices := by
  refine acts?_induction (P := fun as t => (∀ a ∈ as, a.OnlySkips now) →
    t.Cycling e store now ∧ ∃ y : Standing, y.Holds cs t.loop ∧ Tour cs x y (s.sights as) ∧
      t.notices = s.notices ++ (s.sights as).notices) ?_ ?_ hrun honly
  · exact fun _ => ⟨h, x, hx, .refl, (List.append_nil _).symm⟩
  · intro as t a u hrun ih ha honly
    obtain ⟨ht, y, hy, htour, hnotices⟩ := ih fun b hb => honly b (List.mem_append_left _ hb)
    have honly := honly a (by simp)
    obtain ⟨z, hz, hg, hnew⟩ := ht.goes hasks hne hy ha honly
    refine ⟨ht.acted ha honly, z, hz, ?_, ?_⟩
    · rw [sights_concat hrun]
      exact htour.step hg
    · rw [hnew, hnotices, List.append_assoc, sights_concat hrun]
      rfl

end Runs

/-- What there is to see while the learner goes round the queue, after some actions of a session
    that begins. -/
structure RoundTrip {σ : Type} (begin s : RunningSession σ) (now : Instant)
    (as : List (SessionAction σ)) (cs : List Concept) : Prop where
  /-- The questions are those of the queue, over and over again. -/
  shown : ∀ (i : Nat) q, (begin.sights as).shown[i]? = some q →
    cs[i % cs.length]? = some q.candidate.concept
  /-- After the first question, each skip brings one more. -/
  length_shown : (begin.sights as).shown.length =
    (begin.sights as).skipped.length + if s.loop.state.isLocked then 1 else 0
  /-- That the due concepts are exhausted is said once each time round, of the first concept. -/
  exhausted : ∀ c, cs[0]? = some c → s.notices.filter SessionNotice.isExhausted =
    List.replicate (((begin.sights as).shown.length - 1) / cs.length) (.exhausted c.id)
  /-- It is said just before the queue is begun again. With each question, those before it in the
    queue are skipped, and none was passed over. -/
  next : ∀ a t q, a.OnlySkips now → s.act? a = some t → q ∈ (s.sight a).shown →
    let i := (begin.sights as).shown.length
    cs[i % cs.length]? = some q.candidate.concept ∧ t.loop.state.unanswered? = some q ∧
    t.loop.state.skipped = frontIds cs (i % cs.length) ∧ t.loop.state.lastAutoSkipped = none ∧
    t.notices = s.notices ++
      if 0 < i ∧ i % cs.length = 0 then [.exhausted q.candidate.concept.id] else []
  /-- After a skip, the second update that counts brings the next question at the latest. -/
  counted : ∀ before after t u, as = before ++ .command .skip :: after →
    begin.acts? before = some t → t.loop.state.isLocked → t.act? (.command .skip) = some u →
    (u.sights after).shown = [] → (u.sights after).counted.length ≤ 1
  /-- While a question is awaited, every update of the current view counts. -/
  accepts : s.loop.state.awaitsQuestion → ∀ u : PollUpdate,
    u.view.generation = s.loop.view.generation → s.loop.accepts u

section Runs

variable {σ : Type} [ReviewStore σ] {e : Engine} {store : σ} {now : Instant} {cs : List Concept}

theorem holds_start (setup : SessionSetup) (e : Engine) (store : σ) (now : Instant)
    (pollInterval : Nat) (cs : List Concept) :
    (Standing.awaiting 0).Holds cs (start setup e store now pollInterval).loop := by
  have hstate : (start setup e store now pollInterval).loop.state = SessionLoop.start.state :=
    SessionLoop.state_arm ..
  simp only [Standing.Holds, hstate]
  exact ⟨rfl, rfl, rfl⟩

theorem Cycling.isLocked_of_gaveUp {s : RunningSession σ} (h : s.Cycling e store now)
    (hx : Standing.gaveUp.Holds cs s.loop) : s.loop.state.isLocked = false := by
  by_contra hl
  have hl : s.loop.state.isLocked := by simpa using hl
  have hphase := (h.sound.loop.consistent.isLocked_iff.1 hl).1
  rw [h.sound.loop.phase_of_not_receiving hx] at hphase
  cases hphase

/-- Only the question on show is not skipped yet. -/
theorem Cycling.length_shown {s : RunningSession σ} (h : s.Cycling e store now) {x : Standing}
    (hx : x.Holds cs s.loop) {o : Sight} (htour : Tour cs (.awaiting 0) x o) :
    o.shown.length = o.skipped.length + if s.loop.state.isLocked then 1 else 0 := by
  have hcounts := htour.counts
  cases x with
  | shown i =>
    obtain ⟨q, hq, -⟩ := hx
    rw [if_pos (SessionState.unanswered?_eq_some.1 hq).1, hcounts.1, hcounts.2]
  | awaiting i | passedOver i =>
    rw [h.sound.loop.consistent.isLocked_of_awaitsQuestion hx.1, hcounts.1, hcounts.2]
    rfl
  | gaveUp =>
    rw [h.isLocked_of_gaveUp hx]
    exact hcounts

/-- After a skip, the session awaits a question. -/
theorem Cycling.awaiting_of_skip {s t : RunningSession σ} (h : s.Cycling e store now)
    (hasks : Asks e store now cs) (hne : cs ≠ []) {x : Standing} (hx : x.Holds cs s.loop)
    (hl : s.loop.state.isLocked) (ha : s.Acted (.command .skip) t) :
    ∃ i, (Standing.awaiting i).Holds cs t.loop := by
  obtain ⟨y, hy, hg, -⟩ := h.goes hasks hne hx ha trivial
  obtain ⟨q, hq, -⟩ := h.sound.loop.consistent.lock_eq hl
  have hmem : q ∈ (s.sight (.command .skip)).skipped := by
    have hunanswered := SessionState.unanswered?_eq_some.2 ⟨hl, hq⟩
    simp [sight, message?, SessionLoop.sight, hunanswered]
  obtain ⟨i, -, rfl⟩ := hg.of_mem_skipped hmem
  exact ⟨_, hy⟩

theorem roundTrip_of_asks (setup : SessionSetup) (pollInterval : Nat)
    (hasks : Asks e store now cs) (hne : cs ≠ []) {as : List (SessionAction σ)}
    {s : RunningSession σ} (hrun : (start setup e store now pollInterval).acts? as = some s)
    (honly : ∀ a ∈ as, a.OnlySkips now) :
    RoundTrip (start setup e store now pollInterval) s now as cs := by
  have hstart := cycling_start setup e store now pollInterval
  have hbegin := holds_start setup e store now pollInterval cs
  obtain ⟨hs, x, hx, htour, hnotices⟩ := hstart.tour hasks hne hbegin hrun honly
  have hnotices : s.notices = ((start setup e store now pollInterval).sights as).notices := hnotices
  refine ⟨fun i q hq => htour.getElem?_shown hq, hs.length_shown hx htour, fun c hc => ?_, ?_, ?_,
    ?_⟩
  · rw [hnotices]
    exact htour.exhausted hc
  · intro a t q ha hact hq i
    have hacted := acted_of_act? hact
    obtain ⟨y, hy, hg, hnew⟩ := hs.goes hasks hne hx hacted ha
    obtain ⟨j, hplace, rfl, hshown, hget, hsaid⟩ := hg.of_mem_shown hq
    obtain rfl : i = j := htour.length_shown hplace
    obtain ⟨q', hq', -, hskipped⟩ := hy
    have hunanswered := hacted.unanswered?_of_mem_shown hq
    have hlocked := (SessionState.unanswered?_eq_some.1 hunanswered).1
    have ht := (hs.acted hacted ha).sound.loop.consistent
    refine ⟨hget, hunanswered, hskipped, ht.lastAutoSkipped_eq_none hlocked, ?_⟩
    rw [hnew, hsaid]
    rfl
  · rintro before after t u rfl ht hl hact hnone
    rw [acts?_append, ht, Option.bind_some, acts?_cons hact] at hrun
    obtain ⟨ht, y, hy, -⟩ := hstart.tour hasks hne hbegin ht fun a ha => honly a (by simp [ha])
    have hskip := acted_of_act? hact
    -- What follows the skip is a tour of its own, which begins with a question awaited.
    obtain ⟨i, hz⟩ := ht.awaiting_of_skip hasks hne hy hl hskip
    obtain ⟨-, w, -, htour, -⟩ := (ht.acted hskip trivial).tour hasks hne hz hrun
      fun a ha => honly a (by simp [ha])
    exact htour.length_counted hnone
  · intro hw u hu
    exact Sound.accepts_of_awaitsQuestion hs.sound hw hs.writes_eq hu

end Runs

/-- In every run of a session whose learner only skips, the learner goes round the queue. -/
def GoesRound {σ : Type} [ReviewStore σ] (begin : RunningSession σ) (now : Instant)
    (cs : List Concept) : Prop :=
  ∀ as s, begin.acts? as = some s → (∀ a ∈ as, a.OnlySkips now) → RoundTrip begin s now as cs

/-- A learner who only skips goes round the queue that the store reports, as long as nothing else
    changes the store and the date stands still. -/
theorem goesRound_of_askableQueue {σ : Type} [ReviewStore σ] (setup : SessionSetup) (e : Engine)
    (store : σ) (now : Instant) (pollInterval : Nat) {cs : List Concept}
    (h : AskableQueue store e now cs) (hne : cs ≠ []) :
    (start setup e store now pollInterval).GoesRound now cs :=
  fun _ _ hrun honly => roundTrip_of_asks setup pollInterval (h.asks hne) hne hrun honly

/-! ## Round a queue of two concepts -/

section Steps

variable {σ : Type} [ReviewStore σ]

/-- A session that waits for its learner or its poller: its loop, the updates that its fetches came
    to, all of which it has received, and what it has said. The poller may have a new view. -/
def waiting (store : σ) (l : SessionLoop) (past : List PollUpdate) (said : List SessionNotice)
    (isNew : Bool) : RunningSession σ :=
  { sampleStart store with
    loop := l
    poller := { (sampleStart store).poller with
      ticker := ⟨100, 100⟩, lastForwarded := past.getLast?.map PollUpdate.fingerprint
      view := l.view, hasNewView := isNew }
    notices := said
    fetches := past.map PollUpdate.view }

/-- The session with a fetch under its view on the way. -/
def fetching (store : σ) (l : SessionLoop) (past : List PollUpdate) (said : List SessionNotice) :
    RunningSession σ :=
  { waiting store l past said false with
    poller := { (waiting store l past said false).poller with stage := .fetching l.view }
    fetches := past.map PollUpdate.view ++ [l.view] }

variable {store : σ} {l l' : SessionLoop} {past : List PollUpdate} {said said' : List SessionNotice}
  {isNew : Bool}

theorem act?_startViewFetch : (waiting store l past said true).act? .startViewFetch =
    some (fetching store l past said) :=
  rfl

/-- A message that is no answer leaves the session waiting, with a new view if the loop has one. -/
theorem handle_waiting {m : SessionMessage} (h : l.answer? sampleSetup m = none) :
    (waiting store l past said isNew).handle m =
      waiting store (l.turn sampleSetup 0 m) past (said ++ l.noticesFor sampleSetup m)
        (isNew || (l.turn sampleSetup 0 m).view ≠ l.view) := by
  have hanswer : (waiting store l past said isNew).loop.answer?
      (waiting store l past said isNew).setup m = none := h
  have hnotices : ((waiting store l past said isNew).handle m).notices =
      said ++ l.noticesFor sampleSetup m := rfl
  have hturn : (waiting store l past said isNew).loop.turn (waiting store l past said isNew).setup
      (waiting store l past said isNew).now m = l.turn sampleSetup 0 m := rfl
  have hloop : (waiting store l past said isNew).loop = l := rfl
  rw [handle_eq, hanswer, hnotices, hturn, hloop]
  generalize l.turn sampleSetup 0 m = l'
  by_cases hview : l'.view = l.view
  · rw [if_pos hview, decide_eq_false (not_not.2 hview), Bool.or_false]
    simp only [waiting, hview]
    rfl
  · rw [if_neg hview, decide_eq_true hview, Bool.or_true]
    rfl

/-- The session receives the answer to its fetch. -/
def hearing (σ : Type) : List (SessionAction σ) :=
  [.answerFetch, .finishFetch, .receive]

/-- The learner skips the question on show, and the next one is fetched. -/
def skipping (σ : Type) : List (SessionAction σ) :=
  [.command .skip, .startViewFetch]

theorem acts?_hearing {u : PollUpdate} (hview : l.view = u.view)
    (hc : (fetching store l past said).outcome u.view = some u.candidate)
    (hnews : past.getLast?.map PollUpdate.fingerprint ≠ some u.fingerprint)
    (hturn : l.turn sampleSetup 0 (.update u) = l')
    (hsaid : said ++ l.noticesFor sampleSetup (.update u) = said')
    (hnew : decide (l'.view ≠ u.view) = isNew) :
    (fetching store l past said).acts? (hearing σ) =
      some (waiting store l' (past ++ [u]) said' isNew) := by
  obtain ⟨c, v⟩ := u
  subst hview hturn hsaid hnew
  have hroom : (fetching store l past said).poller.channel.length <
      (fetching store l past said).poller.capacity := Nat.zero_lt_succ 7
  have hanswer := acts?_answer rfl hc hnews rfl hroom
  have hreceive : ((fetching store l past said).onItsWay c l.view).act? .receive =
      some ((waiting store l (past ++ [⟨c, l.view⟩]) said false).handle (.update ⟨c, l.view⟩)) := by
    simp only [waiting, List.getLast?_concat, List.map_append, List.map_singleton]
    rfl
  have happend : (fetching store l past said).acts? (hearing σ) = _ :=
    acts?_append _ [.answerFetch, .finishFetch] [.receive]
  rw [happend, hanswer, Option.bind_some, acts?_cons hreceive, handle_waiting rfl, Bool.false_or]
  rfl

theorem acts?_skipping (hturn : l.turn sampleSetup 0 (.command .skip) = l')
    (hnew : l'.view ≠ l.view) : (waiting store l past said isNew).acts? (skipping σ) =
      some (fetching store l' past said) := by
  subst hturn
  have hskip : (waiting store l past said isNew).act? (.command .skip) =
      some (waiting store (l.turn sampleSetup 0 (.command .skip)) past said true) := by
    show some ((waiting store l past said isNew).handle (.command .skip)) = _
    rw [handle_waiting rfl, SessionLoop.noticesFor_command, List.append_nil, decide_eq_true hnew,
      Bool.or_true]
  rw [skipping, acts?_cons hskip]
  rfl

end Steps

/-- The question about a concept that is due at the epoch. -/
def dueCandidate (id : String) : ReviewCandidate :=
  .found (VolatileStore.newQuestion id .epoch)

/-- The view when the first question was skipped. -/
def oneSkipped : PollView :=
  ⟨1, IdSet.empty.insert "a", none⟩

/-- The view when both questions were skipped. -/
def bothSkipped : PollView :=
  ⟨2, (IdSet.empty.insert "a").insert "b", none⟩

/-- The view when the first question was passed over. -/
def firstPassedOver : PollView :=
  ⟨3, (IdSet.empty.insert "a").insert "b", some "a"⟩

/-- What the fetches of the session come to. -/
def roundUpdates : List PollUpdate :=
  [⟨dueCandidate "a", .first⟩, ⟨dueCandidate "b", oneSkipped⟩, ⟨dueCandidate "a", bothSkipped⟩,
    ⟨dueCandidate "a", firstPassedOver⟩]

/-- What its loop handles. -/
def roundMessages : List SessionMessage :=
  [.update ⟨dueCandidate "a", .first⟩, .command .skip, .update ⟨dueCandidate "b", oneSkipped⟩,
    .command .skip, .update ⟨dueCandidate "a", bothSkipped⟩,
    .update ⟨dueCandidate "a", firstPassedOver⟩]

/-- The loop after some of the messages. -/
def roundLoop (n : Nat) : SessionLoop :=
  (roundMessages.take n).foldl (·.turn sampleSetup 0 ·) (.opening sampleSetup 0)

/-- Two questions are shown and skipped, and the first one comes back twice. -/
def roundOnce (σ : Type) : List (SessionAction σ) :=
  .startFetch :: (hearing σ ++ (skipping σ ++ (hearing σ ++ (skipping σ ++ (hearing σ ++
    .startViewFetch :: hearing σ)))))

/-- Each of the updates is news after the one before it. -/
theorem digests_ne :
    documentDigest .first (dueCandidate "a") ≠ documentDigest oneSkipped (dueCandidate "b") ∧
      documentDigest oneSkipped (dueCandidate "b") ≠
        documentDigest bothSkipped (dueCandidate "a") ∧
      documentDigest bothSkipped (dueCandidate "a") ≠
        documentDigest firstPassedOver (dueCandidate "a") := by
  decide +kernel

theorem exists_roundOnce {σ : Type} [ReviewStore σ] {store : σ}
    (hnext : ∀ putOff, nextCandidate Parameters.standard.engine store .epoch putOff =
      .ok (dueCandidate (if "a" ∈ putOff ∧ "b" ∉ putOff then "b" else "a"))) :
    ∃ s, (sampleStart store).acts? (roundOnce σ) = some s ∧ s.loop.state.isLocked ∧
      s.notices = [.exhausted "a"] := by
  have houtcome {l : SessionLoop} {past : List PollUpdate} {said : List SessionNotice}
      {v : PollView} {id : String}
      (hid : (if "a" ∈ v.putOff ∧ "b" ∉ v.putOff then "b" else "a") = id) :
      (fetching store l past said).outcome v = some (dueCandidate id) :=
    outcome_eq_some (hid ▸ hnext v.putOff)
  have hnews {v w : PollView} {c d : ReviewCandidate}
      (h : documentDigest v c ≠ documentDigest w d) :
      some (fingerprint v c) ≠ some (fingerprint w d) :=
    fun he => fingerprint_ne h (Option.some.inj he)
  have hears₁ : (fetching store (roundLoop 0) [] []).acts? (hearing σ) =
      some (waiting store (roundLoop 1) (roundUpdates.take 1) [] false) :=
    acts?_hearing rfl (houtcome (by decide)) (Option.some_ne_none _).symm rfl (by decide +kernel)
      (by decide +kernel)
  have skips₁ : (waiting store (roundLoop 1) (roundUpdates.take 1) [] false).acts? (skipping σ) =
      some (fetching store (roundLoop 2) (roundUpdates.take 1) []) :=
    acts?_skipping rfl (by decide +kernel)
  have hears₂ : (fetching store (roundLoop 2) (roundUpdates.take 1) []).acts? (hearing σ) =
      some (waiting store (roundLoop 3) (roundUpdates.take 2) [] false) :=
    acts?_hearing (by decide +kernel) (houtcome (by decide)) (hnews digests_ne.1) rfl
      (by decide +kernel) (by decide +kernel)
  have skips₂ : (waiting store (roundLoop 3) (roundUpdates.take 2) [] false).acts? (skipping σ) =
      some (fetching store (roundLoop 4) (roundUpdates.take 2) []) :=
    acts?_skipping rfl (by decide +kernel)
  have hears₃ : (fetching store (roundLoop 4) (roundUpdates.take 2) []).acts? (hearing σ) =
      some (waiting store (roundLoop 5) (roundUpdates.take 3) [] true) :=
    acts?_hearing (by decide +kernel) (houtcome (by decide)) (hnews digests_ne.2.1) rfl
      (by decide +kernel) (by decide +kernel)
  have hears₄ : (fetching store (roundLoop 5) (roundUpdates.take 3) []).acts? (hearing σ) =
      some (waiting store (roundLoop 6) roundUpdates [.exhausted "a"] true) :=
    acts?_hearing (by decide +kernel) (houtcome (by decide)) (hnews digests_ne.2.2) rfl
      (by decide +kernel) (by decide +kernel)
  refine ⟨waiting store (roundLoop 6) roundUpdates [.exhausted "a"] true, ?_, ?_, rfl⟩
  · have hbegin : (sampleStart store).act? .startFetch =
        some (fetching store (roundLoop 0) [] []) := rfl
    rw [roundOnce, acts?_cons hbegin, acts?_append, hears₁, Option.bind_some, acts?_append, skips₁,
      Option.bind_some, acts?_append, hears₂, Option.bind_some, acts?_append, skips₂,
      Option.bind_some, acts?_append, hears₃, Option.bind_some,
      acts?_cons act?_startViewFetch, hears₄]
  · show (roundLoop 6).state.isLocked
    decide +kernel

/-- Round a queue of two concepts, in memory and in a database: the learner skips both, and the first
    one comes back after it is said that the due concepts are exhausted. -/
theorem goesRound_of_twoQuestions :
    let volatile := sampleStart (VolatileStore.twoQuestions .epoch)
    let database := sampleStart (VolatileStore.twoQuestions .epoch).tables
    let cs := [(VolatileStore.newQuestion "a" .epoch).concept,
      (VolatileStore.newQuestion "b" .epoch).concept]
    (∃ s, volatile.acts? (roundOnce VolatileStore) = some s ∧ s.loop.state.isLocked ∧
      s.notices = [.exhausted "a"] ∧ RoundTrip volatile s .epoch (roundOnce VolatileStore) cs) ∧
    ∃ s, database.acts? (roundOnce DatabaseStore) = some s ∧ s.loop.state.isLocked ∧
      s.notices = [.exhausted "a"] ∧ RoundTrip database s .epoch (roundOnce DatabaseStore) cs := by
  intro volatile database cs
  have hmicro : Instant.epoch.IsMicro := by decide
  have hne : cs ≠ [] := List.cons_ne_nil _ _
  have honly (σ : Type) : ∀ a ∈ roundOnce σ, a.OnlySkips .epoch := by
    simp [roundOnce, hearing, skipping, SessionAction.OnlySkips]
  have hdistinct := VolatileStore.distinct_twoQuestions .epoch
  have hqueue := VolatileStore.isQueue_twoQuestions Parameters.standard.engine .epoch
  constructor
  · obtain ⟨s, hs, hlocked, hnotices⟩ :=
      exists_roundOnce (VolatileStore.nextCandidate_twoQuestions Parameters.standard.engine .epoch)
    have hcs := hqueue.askableQueue VolatileStore.representation ⟨rfl, hdistinct⟩ trivial
    exact ⟨s, hs, hlocked, hnotices, goesRound_of_askableQueue sampleSetup _ _ .epoch 100 hcs hne _ _
      hs (honly _)⟩
  · obtain ⟨s, hs, hlocked, hnotices⟩ := exists_roundOnce
      (VolatileStore.nextCandidate_twoQuestions_tables Parameters.standard.engine hmicro)
    have hholds := VolatileStore.holds_twoQuestions hmicro
    have hcs := hqueue.askableQueue DatabaseStore.representation hholds hmicro.1
    exact ⟨s, hs, hlocked, hnotices, goesRound_of_askableQueue sampleSetup _ _ .epoch 100 hcs hne _ _
      hs (honly _)⟩

end RunningSession

end SpacedReview
