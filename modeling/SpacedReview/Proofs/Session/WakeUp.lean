import SpacedReview.Proofs.Session.Exhaustion

/-!
# Waking up

The poller keeps back what it has forwarded before, and the loop passes over what it cannot use. A
session that awaits a question is woken up all the same: unless an update of the current view is on
its way, the poller has forwarded nothing under that view, and will forward the next result.

## Main definitions

- `SessionLoop.Progressed` — what becomes of a session that awaits a question and gets a result
- `Poller.WouldForward` — what the poller takes for news
- `RunningSession.Awake` — the invariant between the poller's memory, the updates in transit and the
  loop

## Main statements

- `RunningSession.wakes_up` — a session that awaits a question is woken up
-/

namespace SpacedReview

namespace SessionState

variable {s : SessionState}

/-- A session that awaits a question does not ignore a result. -/
theorem Consistent.route_ne_ignored (h : s.Consistent) (hw : s.awaitsQuestion)
    {c : ReviewCandidate} (hc : c ≠ .pending) :
    ¬ (s.IsOpen → c = .pending ∨ (c = .empty ∧ s.phase = .empty)) := by
  intro hi
  rcases hi (h.isOpen_of_awaitsQuestion hw) with hp | ⟨-, hp⟩
  · exact hc hp
  · obtain ⟨-, -, ht, -⟩ := h.of_empty hp
    simp [awaitsQuestion, hp, ht] at hw

end SessionState

namespace SessionLoop

variable {setup : SessionSetup} {l : SessionLoop}

/-- What becomes of a session that awaits a question and gets a result: its question is on show,
    nothing is due, or a skipped concept is passed over and a new view is published. -/
inductive Progressed (l : SessionLoop) : ReviewCandidate → SessionLoop → Prop where
  | installed {q : Question} {l' : SessionLoop} : l'.state.unanswered? = some q →
      Progressed l (.found q.candidate) l'
  | emptied {l' : SessionLoop} : l'.state.phase = .empty → Progressed l .empty l'
  | passedOver {c : FoundCandidate} {l' : SessionLoop} :
      l'.state.lastAutoSkipped = some c.concept.id →
      l'.view = l.view.succeed (.ofState l'.state) → Progressed l (.found c) l'

/-- An update that counts always gets a waiting session on. -/
theorem Sound.progressed_turn (h : l.Sound) (hw : l.state.awaitsQuestion) {u : PollUpdate}
    (ha : l.accepts u) (hu : u.candidate ≠ .pending) (now : Nat) :
    l.Progressed u.candidate (l.turn setup now (.update u)) := by
  have hstate : (l.turn setup now (.update u)).state = _ := state_turn_of_accepts ha now
  have hview : (l.turn setup now (.update u)).view = _ := view_turn_of_accepts ha now
  have hr := l.state.routed_route u.candidate (setup.lock l.locksUsed)
  generalize l.turn setup now (.update u) = l' at *
  generalize l.state.route u.candidate (setup.lock l.locksUsed) = events at *
  generalize u.candidate = c at *
  cases hr with
  | ignored hi => exact absurd hi (h.consistent.route_ne_ignored hw hu)
  | emptied => exact .emptied (by rw [hstate]; rfl)
  | @installed c => exact .installed (q := ⟨c, _⟩) (by rw [hstate]; rfl)
  | @exhausted c => exact .installed (q := ⟨c, _⟩) (by rw [hstate]; rfl)
  | passedOver _ _ hl =>
    refine .passedOver (by rw [hstate]; rfl) ?_
    rw [hview, hstate]
    exact view_dispatch_autoSkip h.skips_view hl

/-- A turn that leaves a session waiting without a new view and without a new write has found it
    waiting, and has not used an update. -/
theorem Sound.awaited_of_turn (h : l.Sound) {now : Nat} {m : SessionMessage}
    (hm : ∀ u, m = .update u → u.candidate ≠ .pending)
    (hw : (l.turn setup now m).state.awaitsQuestion)
    (hg : (l.turn setup now m).view.generation = l.view.generation)
    (hnone : l.answer? setup m = none) :
    l.state.awaitsQuestion ∧ ∀ u, m = .update u → l.accepts u = false := by
  obtain ⟨l', hs, ht⟩ := exists_stepped setup now l m
  rw [ht, state_arm] at hw
  rw [ht, view_arm] at hg
  -- Every way into waiting that uses an update or gives up the lock publishes a new view, except
  -- for an answer, which is written.
  cases hs with
  | overlooked ha =>
    refine ⟨hw, ?_⟩
    intro u he
    obtain rfl := SessionMessage.update.inj he
    exact ha
  | refused => exact ⟨hw, by simp⟩
  | @routed u ha =>
    rw [state_foldl_dispatch] at hw
    have hu := hm u rfl
    have hr := l.state.routed_route u.candidate (setup.lock l.locksUsed)
    generalize l.state.route u.candidate (setup.lock l.locksUsed) = events at *
    generalize u.candidate = c at *
    cases hr with
    | ignored hi => exact absurd hi (h.consistent.route_ne_ignored hw hu)
    | emptied | installed | exhausted =>
      simp [SessionState.applyAll, SessionState.apply, SessionState.awaitsQuestion] at hw
    | passedOver _ _ hl =>
      rw [List.foldl_cons, List.foldl_nil, view_dispatch_autoSkip h.skips_view hl] at hg
      exact absurd hg (Nat.succ_ne_self _)
  | submitted _ _ _ hq => simp [answer?, hq] at hnone
  | @skipped q hq =>
    obtain ⟨hl, hq⟩ := SessionState.unanswered?_eq_some.1 hq
    have hid := h.consistent.not_mem_skipped hl q.candidate.concept.id
      (by simp [SessionState.conceptId?, hq])
    rw [view_dispatch_skipConcept h.skips_view hid] at hg
    exact absurd hg (Nat.succ_ne_self _)
  | written r => exact absurd hg (Nat.succ_ne_self _)
  | gaveUp => simp [state_dispatch, SessionState.apply, SessionState.awaitsQuestion] at hw

end SessionLoop

/-- A fetch that has the update as its result puts it on its way. -/
def Poller.WouldForward (p : Poller) (u : PollUpdate) : Prop :=
  u ∈ ({ p with stage := .answered u.view (some u.candidate) }.finishFetch).inTransit

theorem Poller.wouldForward_of_news {p : Poller} {u : PollUpdate} (hr : p.isReceived)
    (h : p.lastForwarded ≠ some u.fingerprint) : p.WouldForward u := by
  have hn : news? p.lastForwarded u.view (some u.candidate) = some u :=
    news?_eq_some.2 ⟨rfl, rfl, h⟩
  simp only [WouldForward, finishFetch, hn]
  exact mem_inTransit_send (p := { p with
    stage := .answered u.view (some u.candidate), lastForwarded := some u.fingerprint }) hr u

namespace RunningSession

variable {σ : Type} {s : RunningSession σ}

/-! ## The invariant -/

theorem Acted.lastForwarded_eq {a : SessionAction σ} {t : RunningSession σ} (ha : s.Acted a t) :
    t.poller.lastForwarded =
      ((s.forwardSeen a).getLast?.map PollUpdate.fingerprint).or s.poller.lastForwarded := by
  cases ha with
  | receive | command | written => exact lastForwarded_poller_handle _ _
  | timeOut => exact lastForwarded_poller_handle s .watchdog
  | suppress hv hn => simp [forwardSeen, hv, hn]
  | @forward v o u hv hn =>
    have hseen : s.forwardSeen .finishFetch = [u] := by simp [forwardSeen, hv, hn]
    rw [hseen]
    rcases Poller.send_cases { s.poller with lastForwarded := some u.fingerprint } u with
      ⟨-, hs⟩ | ⟨-, hs⟩ | ⟨-, hs⟩ <;> (rw [hs]; rfl)
  | @resend u hu =>
    rcases s.poller.send_cases u with ⟨-, hs⟩ | ⟨-, hs⟩ | ⟨-, hs⟩ <;> (rw [hs]; rfl)
  | _ => rfl

/-- How the poller's memory, the updates in transit and the loop hang together, given the update
    that was forwarded last. -/
structure Awake (s : RunningSession σ) (last : Option PollUpdate) : Prop where
  lastForwarded_eq : s.poller.lastForwarded = last.map PollUpdate.fingerprint
  /-- Nothing is fetched under a view that is not published yet, and every result is known. -/
  carries : s.poller.Carries (fun v => v.generation ≤ s.loop.view.generation) fun u =>
    u.view.generation ≤ s.loop.view.generation ∧ u.candidate ≠ .pending
  generation_le : ∀ u, last = some u → u.view.generation ≤ s.loop.view.generation
  /-- What was forwarded under the current view is still in transit while a question is awaited. -/
  inTransit : s.loop.state.awaitsQuestion → s.writes = [] → ∀ u, last = some u →
    u.view.generation = s.loop.view.generation →
    ∃ w ∈ s.poller.inTransit, w.view.generation = s.loop.view.generation

theorem outcome_ne_pending (hb : s.backend.NeverPending) {v : PollView} {c : ReviewCandidate}
    (h : s.outcome v = some c) : c ≠ .pending := by
  rintro rfl
  unfold outcome at h
  split at h
  · rename_i c hc
    exact hb _ _ _ (Option.some.inj h ▸ hc)
  · cases h

/-- A session that awaits a question receives updates. -/
theorem Sound.isReceived_of_awaitsQuestion (h : s.Sound) (hw : s.loop.state.awaitsQuestion) :
    s.poller.isReceived := by
  rw [h.isReceived_eq]
  cases hr : s.loop.isReceiving with
  | true => rfl
  | false =>
    have hp := h.loop.phase_of_not_receiving hr
    exact absurd hp (h.loop.consistent.isOpen_of_awaitsQuestion hw).2

/-- Without answers on their way, a session that awaits a question uses every update of its view. -/
theorem Sound.accepts_of_awaitsQuestion (h : s.Sound) (hw : s.loop.state.awaitsQuestion)
    (hwrites : s.writes = []) {u : PollUpdate}
    (hu : u.view.generation = s.loop.view.generation) : s.loop.accepts u := by
  refine SessionLoop.accepts_iff.2 ⟨?_, hu, fun id _ => ?_⟩
  · rw [← h.isReceived_eq]
    exact h.isReceived_of_awaitsQuestion hw
  · rw [h.mem_committing_iff, inFlight, hwrites]
    exact List.not_mem_nil

theorem writes_eq_nil_of_handle {m : SessionMessage} (h : (s.handle m).writes = []) :
    s.writes = [] ∧ s.loop.answer? s.setup m = none := by
  rw [writes_handle, List.append_eq_nil_iff] at h
  simpa using h

/-- If a message leaves a session waiting, without answers on their way and without a newer view
    than an update has, it has found the session so, and has not used an update. -/
theorem awaited_of_handle (hl : s.loop.Sound) {m : SessionMessage}
    (hm : ∀ u, m = .update u → u.candidate ≠ .pending)
    (hw : (s.handle m).loop.state.awaitsQuestion) (hwrites : (s.handle m).writes = [])
    {u : PollUpdate} (hu : u.view.generation ≤ s.loop.view.generation)
    (hg : u.view.generation = (s.handle m).loop.view.generation) :
    s.loop.state.awaitsQuestion ∧ s.writes = [] ∧
      (s.handle m).loop.view.generation = s.loop.view.generation ∧
      ∀ w, m = .update w → s.loop.accepts w = false := by
  obtain ⟨hwrites, hnone⟩ := writes_eq_nil_of_handle hwrites
  have hle : s.loop.view.generation ≤ (s.handle m).loop.view.generation :=
    SessionLoop.generation_le_turn s.now m
  have he : (s.handle m).loop.view.generation = s.loop.view.generation := by omega
  obtain ⟨hw, ha⟩ := hl.awaited_of_turn hm hw he hnone
  exact ⟨hw, hwrites, he, ha⟩

/-- After every action, what was forwarded under the current view is still in transit while a
    question is awaited. -/
theorem Awake.exists_inTransit {last : Option PollUpdate} (h : s.Awake last) (hs : s.Sound)
    {a : SessionAction σ} {t : RunningSession σ} (ha : s.Acted a t)
    (hw : t.loop.state.awaitsQuestion) (hwrites : t.writes = []) {u : PollUpdate}
    (hu : ((s.forwardSeen a).getLast?.or last) = some u)
    (hg : u.view.generation = t.loop.view.generation) :
    ∃ w ∈ t.poller.inTransit, w.view.generation = t.loop.view.generation := by
  cases ha with
  | pass | setDate | edit => exact h.inTransit hw hwrites u hu hg
  | startFetch hv | startViewFetch hv | answerFetch hv | failFetch hv =>
    obtain ⟨w, hmem, hw⟩ := h.inTransit hw hwrites u hu hg
    rw [Poller.inTransit_eq_channel (by simp [hv])] at hmem
    exact ⟨w, Poller.mem_inTransit_of_mem_channel hmem, hw⟩
  | suppress hv hn =>
    obtain ⟨w, hmem, hw⟩ := h.inTransit hw hwrites u (by simpa [forwardSeen, hv, hn] using hu) hg
    rw [Poller.inTransit_eq_channel (by simp [hv])] at hmem
    exact ⟨w, Poller.mem_inTransit_of_mem_channel hmem, hw⟩
  | @forward v o w hv hn =>
    obtain rfl : w = u := by simpa [forwardSeen, hv, hn] using hu
    have hr := hs.isReceived_of_awaitsQuestion hw
    refine ⟨w, ?_, hg⟩
    exact Poller.mem_inTransit_send
      (p := { s.poller with lastForwarded := some w.fingerprint }) hr w
  | @resend v hv =>
    obtain ⟨w, hmem, hw'⟩ := h.inTransit hw hwrites u hu hg
    refine ⟨w, ?_, hw'⟩
    show w ∈ (s.poller.send v).inTransit
    rw [Poller.inTransit_send (hs.isReceived_of_awaitsQuestion hw)]
    simpa [Poller.inTransit, hv] using hmem
  | @receive v rest hc =>
    have hlast : last = some u := hu
    have hpending := (h.carries.of_inTransit v (Poller.mem_inTransit_of_mem_channel
      (hc ▸ List.mem_cons_self))).2
    obtain ⟨hwait, hnone, he, hused⟩ := awaited_of_handle (m := .update v)
      (s := { s with poller := { s.poller with channel := rest } }) hs.loop
      (fun w hw => SessionMessage.update.inj hw ▸ hpending) hw hwrites (h.generation_le u hlast) hg
    obtain ⟨w, hmem, hgen⟩ := h.inTransit hwait hnone u hlast (hg.trans he)
    -- The update that was handled has not got the session on, so it is of another view.
    have hne : w ≠ v := by
      rintro rfl
      have huses := hs.accepts_of_awaitsQuestion hwait hnone hgen
      rw [hused w rfl] at huses
      cases huses
    refine ⟨w, ?_, hgen.trans he.symm⟩
    rw [inTransit_poller_handle]
    simp only [Poller.inTransit, hc, List.cons_append] at hmem ⊢
    exact List.mem_of_ne_of_mem hne hmem
  | command c =>
    have hlast : last = some u := hu
    obtain ⟨hw, hwrites, he, -⟩ := awaited_of_handle hs.loop (by simp) hw hwrites
      (h.generation_le u hlast) hg
    obtain ⟨w, hmem, hgen⟩ := h.inTransit hw hwrites u hlast (hg.trans he)
    refine ⟨w, ?_, hgen.trans he.symm⟩
    rw [inTransit_poller_handle]
    exact hmem
  | dateWrite | write | failWrite => simp at hwrites
  | @written earlier later w r =>
    -- The end of a write publishes a view under which nothing was forwarded yet.
    have hle := h.generation_le u hu
    have hnew : (({ s with writes := earlier ++ later } : RunningSession σ).handle
        (.written r)).loop.view.generation = s.loop.view.generation + 1 :=
      SessionLoop.generation_turn_written s.now r
    omega
  | timeOut =>
    have hstate : (s.handle .watchdog).loop.state = s.loop.state.apply .loadTimeout :=
      SessionLoop.state_arm ..
    rw [hstate] at hw
    simp [SessionState.apply, SessionState.awaitsQuestion] at hw

theorem Awake.generation_le_of_forwardSeen {last : Option PollUpdate} (h : s.Awake last)
    {a : SessionAction σ} {u : PollUpdate} (hu : u ∈ s.forwardSeen a) :
    u.view.generation ≤ s.loop.view.generation := by
  unfold forwardSeen at hu
  split at hu
  · split at hu
    · rename_i v o hv
      obtain ⟨rfl, rfl, -⟩ := news?_eq_some.1 (Option.mem_toList.1 hu)
      exact (h.carries.of_answered u.view u.candidate hv).1
    · simp at hu
  · simp at hu

theorem Awake.acted {last : Option PollUpdate} (h : s.Awake last) (hs : s.Sound)
    (hb : s.backend.NeverPending) {a : SessionAction σ} {t : RunningSession σ}
    (ha : s.Acted a t) : t.Awake ((s.forwardSeen a).getLast?.or last) := by
  have hle : s.loop.view.generation ≤ t.loop.view.generation :=
    Nat.le_trans (Nat.le_add_right ..) ha.generation_le
  refine ⟨?_, ?_, ?_, fun hw hwrites u hu hg => h.exists_inTransit hs ha hw hwrites hu hg⟩
  · rw [ha.lastForwarded_eq, h.lastForwarded_eq]
    cases (s.forwardSeen a).getLast? <;> rfl
  · refine ha.carries h.carries ?_ (fun _ v hv => Nat.le_trans hv hle)
      (fun u hu => ⟨Nat.le_trans hu.1 hle, hu.2⟩) ?_
    · intro _
      rw [hs.view_eq]
      exact hle
    · intro _ u hu hc
      exact ⟨Nat.le_trans hu hle, outcome_ne_pending hb hc⟩
  · intro u hu
    refine Nat.le_trans ?_ hle
    cases hlast : (s.forwardSeen a).getLast? with
    | none =>
      rw [hlast] at hu
      exact h.generation_le u hu
    | some w =>
      rw [hlast] at hu
      obtain rfl := Option.some.inj hu
      exact h.generation_le_of_forwardSeen (List.mem_of_getLast? hlast)

theorem awake_startOn (setup : SessionSetup) (backend : ReviewBackend σ) (store : σ)
    (date : Instant) (pollInterval : Nat) :
    (startOn setup backend store date pollInterval).Awake none where
  lastForwarded_eq := rfl
  carries := carries_startOn setup backend store date pollInterval _ _
  generation_le := by simp
  inTransit := by simp

theorem Awake.acts? (h : s.Awake none) (hs : s.Sound) (hb : s.backend.NeverPending)
    {as : List (SessionAction σ)} {t : RunningSession σ} (hrun : s.acts? as = some t) :
    t.Awake (s.forwards as).getLast? := by
  refine acts?_induction (P := fun as t => t.Awake (s.forwards as).getLast?) h ?_ hrun
  intro as t a u hrun ht ha
  have hstep := ht.acted (sound_of_acts? hs hrun) (backend_of_acts? hrun ▸ hb) ha
  rw [forwards, observed_concat _ hrun, List.getLast?_append]
  exact hstep

/-- A session that awaits a question and has no answer on its way is woken up, in every run with a
    review queue that always knows whether something is due. An update of its view is in transit, or
    the update that was forwarded last is of an older view; then the poller, which has the session's
    view, will forward the next result under it, unless a fingerprint that was forwarded under
    another view happens to be the same. And whichever update of its view the session handles gets
    it on. -/
theorem wakes_up (setup : SessionSetup) {backend : ReviewBackend σ} (hb : backend.NeverPending)
    (store : σ) (date : Instant) (pollInterval : Nat) {as : List (SessionAction σ)}
    {s : RunningSession σ}
    (hrun : (startOn setup backend store date pollInterval).acts? as = some s)
    (hw : s.loop.state.awaitsQuestion) (hwrites : s.writes = []) :
    let forwarded := (startOn setup backend store date pollInterval).forwards as
    let view := s.loop.view
    ((∃ u ∈ s.poller.inTransit, u.view.generation = view.generation) ∨
      (∀ u, forwarded.getLast? = some u → u.view.generation ≠ view.generation) ∧
        s.poller.view = view ∧
        ∀ c, (∀ u ∈ forwarded, u.view ≠ view → u.fingerprint ≠ fingerprint view c) →
          s.poller.WouldForward ⟨c, view⟩) ∧
      ∀ u rest, s.poller.channel = u :: rest → u.view.generation = view.generation →
        ∃ t, s.act? .receive = some t ∧ s.loop.Progressed u.candidate t.loop := by
  intro forwarded view
  have hstart := sound_startOn setup backend store date pollInterval
  have hs : s.Sound := sound_of_acts? hstart hrun
  have hawake : s.Awake forwarded.getLast? :=
    (awake_startOn setup backend store date pollInterval).acts? hstart hb hrun
  constructor
  · by_cases hlast : ∃ u, forwarded.getLast? = some u ∧ u.view.generation = view.generation
    · obtain ⟨u, hu, hg⟩ := hlast
      exact .inl (hawake.inTransit hw hwrites u hu hg)
    · have hold : ∀ u, forwarded.getLast? = some u → u.view.generation ≠ view.generation :=
        fun u hu hg => hlast ⟨u, hu, hg⟩
      refine .inr ⟨hold, hs.view_eq, fun c hc => ?_⟩
      refine Poller.wouldForward_of_news (hs.isReceived_of_awaitsQuestion hw) ?_
      rw [hawake.lastForwarded_eq]
      intro he
      obtain ⟨u, hu, he⟩ := Option.map_eq_some_iff.1 he
      exact hc u (List.mem_of_getLast? hu) (fun hv => hold u hu (congrArg _ hv)) he
  · intro u rest hu hg
    have hact : s.act? .receive = some
        (({ s with poller := { s.poller with channel := rest } }).handle (.update u)) := by
      simp only [act?, hu]
    have hpending := (hawake.carries.of_inTransit u (Poller.mem_inTransit_of_mem_channel
      (hu ▸ List.mem_cons_self))).2
    have haccepts := hs.accepts_of_awaitsQuestion hw hwrites hg
    exact ⟨_, hact, hs.loop.progressed_turn hw haccepts hpending s.now⟩

/-- The only update of a fetch that is news is the one that it comes to. -/
theorem forwards_answer {v : PollView} {c : ReviewCandidate}
    (hstage : s.poller.stage = .fetching v) (hc : s.outcome v = some c)
    (hnews : s.poller.lastForwarded ≠ some (fingerprint v c)) :
    s.forwards [.answerFetch, .finishFetch] = [⟨c, v⟩] := by
  have hn : news? s.poller.lastForwarded v (some c) = some ⟨c, v⟩ :=
    news?_eq_some.2 ⟨rfl, rfl, hnews⟩
  have hact := act_of_act? (act?_answerFetch hstage hc)
  simp only [forwards, observed, hact, forwardSeen, hn]
  rfl

/-- The only question is asked and skipped. -/
def skipsOnly : List (SessionAction VolatileStore) :=
  [.startFetch] ++ [.answerFetch, .finishFetch] ++ [.receive, .command .skip]

/-- A session with one question, which the learner has skipped, waits with nothing on its way, and
    will forward the question again. When it has come back, the session passes over it. -/
theorem wakes_up_of_skip :
    (∃ s, oneQuestion.acts? skipsOnly = some s ∧ s.loop.state.awaitsQuestion ∧ s.writes = [] ∧
      s.poller.inTransit = [] ∧ s.poller.WouldForward ⟨onlyCandidate, skippedView⟩) ∧
    ∃ s t, oneQuestion.acts? comesBack = some s ∧ s.loop.state.awaitsQuestion ∧ s.writes = [] ∧
      s.poller.channel = [⟨onlyCandidate, skippedView⟩] ∧ s.act? .receive = some t ∧
      s.loop.Progressed onlyCandidate t.loop := by
  have hb : oneQuestion.backend.NeverPending := ReviewBackend.neverPending_service _
  constructor
  · have hrun : oneQuestion.acts? skipsOnly =
        some ((oneQuestionAsked.act .receive).act (.command .skip)) := by
      rw [skipsOnly, acts?_append, acts?_oneQuestionAsked]
      rfl
    have hforwards : oneQuestion.forwards skipsOnly = [⟨onlyCandidate, .first⟩] := by
      have hstart : oneQuestion.acts? [.startFetch] = some (oneQuestion.act .startFetch) := rfl
      have hanswered : (oneQuestion.act .startFetch).forwards [.answerFetch, .finishFetch] =
          [⟨onlyCandidate, .first⟩] :=
        forwards_answer rfl (outcome_oneQuestion rfl rfl rfl .first) (Option.some_ne_none _).symm
      rw [forwards] at hanswered ⊢
      rw [skipsOnly, observed_append _ acts?_oneQuestionAsked, observed_append _ hstart, hanswered]
      rfl
    obtain ⟨hwoken, -⟩ := wakes_up sampleSetup hb oneQuestion.store .epoch 100 hrun rfl rfl
    have hnone : ((oneQuestionAsked.act .receive).act (.command .skip)).poller.inTransit = [] := rfl
    refine ⟨_, hrun, rfl, rfl, hnone, ?_⟩
    rcases hwoken with ⟨u, hu, -⟩ | ⟨-, -, hnext⟩
    · rw [hnone] at hu
      cases hu
    · refine hnext onlyCandidate fun u hu _ => ?_
      have hu : u ∈ oneQuestion.forwards skipsOnly := hu
      rw [hforwards, List.mem_singleton] at hu
      rw [hu]
      exact fingerprint_skippedView
  · have hchannel : (oneQuestionSkipped.onItsWay onlyCandidate skippedView).poller.channel =
        [⟨onlyCandidate, skippedView⟩] := rfl
    obtain ⟨-, hprogress⟩ :=
      wakes_up sampleSetup hb oneQuestion.store .epoch 100 acts?_comesBack rfl rfl
    obtain ⟨t, ht, hp⟩ := hprogress _ _ hchannel rfl
    exact ⟨_, t, acts?_comesBack, rfl, rfl, hchannel, ht, hp⟩

end RunningSession

end SpacedReview
