import SpacedReview.Proofs.Session.PollRuns

/-!
# Published views

The view that a session publishes is the mirror of what it has skipped. The loop publishes the view
after the last one when a message has changed what is skipped, and when a write ends; nothing else
makes it publish, and no message makes it publish twice. So the last view always shows what is
skipped, no two views have one generation, and a result with the generation of the last view was
fetched with exactly the skipped concepts put off. Generations are counted without a bound.

## Main definitions

- `SessionLoop.publishedViews` — the views that are published in a run
- `SessionLoop.Mirrors` — how the published views hang together with what is skipped
- `RunningSession.messages` — the messages that the loop of a session handles in a run
- `RunningSession.FetchedWith` — what an update on its way was fetched with

## Main statements

- `SessionLoop.leadsTo_viewsIn` — the published views are numbered in their order
- `SessionLoop.viewsOn_eq` — what is published on a message
- `RunningSession.mirrors_skips` — the published views mirror the session in every run
-/

namespace SpacedReview

/-! ## What is published on a message -/

/-- The message is the end of a write. -/
def SessionMessage.isWritten : SessionMessage → Bool
  | written _ => true
  | _ => false

namespace SessionLoop

variable {setup : SessionSetup} {l : SessionLoop}

/-- The views that the loop publishes on some messages, oldest first. -/
def viewsIn (setup : SessionSetup) : SessionLoop → List (Nat × SessionMessage) → List PollView
  | _, [] => []
  | l, (now, m) :: ms => l.viewsOn setup m ++ viewsIn setup (l.turn setup now m) ms

/-- The views that the loop of a session has published since its start, oldest first: the first
    view, what the start itself publishes, and what its messages make it publish. -/
def publishedViews (setup : SessionSetup) (start : Nat) (ms : List (Nat × SessionMessage)) :
    List PollView :=
  .first :: (initial.viewsOf [.loadStart] ++ (opening setup start).viewsIn setup ms)

theorem viewsIn_append (l : SessionLoop) (ms ns : List (Nat × SessionMessage)) :
    l.viewsIn setup (ms ++ ns) = l.viewsIn setup ms ++ (l.after setup ms).viewsIn setup ns := by
  induction ms generalizing l with
  | nil => rfl
  | cons m ms ih =>
    show l.viewsOn setup m.2 ++ viewsIn setup (l.turn setup m.1 m.2) (ms ++ ns) = _
    rw [ih, ← List.append_assoc]
    rfl

/-- The views that are published in a run are numbered in their order, up to the last one. -/
theorem leadsTo_viewsIn (l : SessionLoop) (ms : List (Nat × SessionMessage)) :
    l.view.LeadsTo (l.viewsIn setup ms) (l.after setup ms).view := by
  induction ms generalizing l with
  | nil => exact .nothing _
  | cons m ms ih => exact (leadsTo_viewsOn setup m.1 l m.2).append (ih _)

/-! ## Mirrored loops -/

theorem viewsOf_singleton (h : l.view.skips = .ofState l.state) (e : SessionEvent) :
    l.viewsOf [e] = if SkipView.ofState (l.state.apply e) = .ofState l.state then []
      else [l.view.succeed (.ofState (l.state.apply e))] := by
  by_cases he : SkipView.ofState (l.state.apply e) = .ofState l.state
  · have hview : (l.dispatch e).view = l.view := PollView.update_of_eq (h.trans he.symm)
    simp [viewsOf, hview, he]
  · have hview : (l.dispatch e).view = l.view.succeed (.ofState (l.state.apply e)) :=
      PollView.update_of_ne (fun hs => he (hs.symm.trans h)) false
    simp [viewsOf, hview, he, PollView.succeed_ne_self]

theorem viewsOf_forgets (h : l.view.skips = .ofState l.state) {id : String}
    (hid : l.state.lastAutoSkipped = some id) (q : Question) :
    l.viewsOf [.clearSkipped, .questionReceived q] = [l.view.succeed .empty] := by
  have hne : SkipView.ofState (l.state.apply .clearSkipped) ≠ .ofState l.state := fun he => by
    have hlast := congrArg SkipView.lastAutoSkipped he
    simp [SkipView.ofState, SessionState.apply, hid] at hlast
  have hfirst : l.viewsOf [.clearSkipped] = [l.view.succeed .empty] :=
    (viewsOf_singleton h .clearSkipped).trans (if_neg hne)
  -- The marker is gone by then, so the question changes nothing of what is skipped.
  have hsecond : (l.dispatch .clearSkipped).viewsOf [.questionReceived q] = [] :=
    (viewsOf_singleton (PollView.skips_update _ _ _) _).trans (if_pos rfl)
  rw [viewsOf, hsecond]
  exact hfirst

/-- The events of a message publish at most one view: the one that shows what is skipped after
    them, if that has changed. -/
theorem viewsOf_eventsOn (h : l.view.skips = .ofState l.state) (setup : SessionSetup)
    (m : SessionMessage) :
    l.viewsOf (l.eventsOn setup m) =
      if SkipView.ofState (l.state.applyAll (l.eventsOn setup m)) = .ofState l.state then []
      else [l.view.succeed (.ofState (l.state.applyAll (l.eventsOn setup m)))] := by
  have hevents := length_eventsOn_le_one_or setup l m
  generalize l.eventsOn setup m = events at hevents ⊢
  rcases hevents with hle | ⟨q, id, rfl, hid⟩
  · cases events with
    | nil => exact (if_pos rfl).symm
    | cons e es =>
      obtain rfl : es = [] := by simpa using hle
      exact viewsOf_singleton h e
  · have hne : SkipView.empty ≠ .ofState l.state := fun he => by
      have hlast := congrArg SkipView.lastAutoSkipped he
      simp [SkipView.ofState, SkipView.empty, hid] at hlast
    rw [viewsOf_forgets h hid q]
    exact (if_neg hne).symm

theorem skips_view_turn (h : l.view.skips = .ofState l.state) (now : Nat) (m : SessionMessage) :
    (l.turn setup now m).view.skips = .ofState (l.turn setup now m).state := by
  obtain ⟨l', hs, ht⟩ := exists_stepped setup now l m
  rw [ht, view_arm, state_arm]
  cases hs with
  | overlooked | refused => exact h
  | routed => exact skips_view_foldl_dispatch h
  | submitted | skipped | gaveUp => exact PollView.skips_update ..
  | written => rfl

theorem skips_view_after (h : l.view.skips = .ofState l.state) (ms : List (Nat × SessionMessage)) :
    (l.after setup ms).view.skips = .ofState (l.after setup ms).state := by
  induction ms generalizing l with
  | nil => exact h
  | cons m ms ih => exact ih (skips_view_turn h m.1 m.2)

/-- A message publishes one view if it is the end of a write or changes what is skipped, and none
    otherwise. -/
theorem viewsOn_eq (h : l.view.skips = .ofState l.state) (now : Nat) (m : SessionMessage) :
    l.viewsOn setup m =
      if m.isWritten ∨ SkipView.ofState (l.turn setup now m).state ≠ .ofState l.state then
        [l.view.succeed (.ofState (l.turn setup now m).state)]
      else [] := by
  have hevents := viewsOf_eventsOn h setup m
  rw [← state_turn now m] at hevents
  cases m with
  | written r =>
    have hstate : (l.turn setup now (.written r)).state = l.state := state_turn now (.written r)
    rw [if_pos (.inl rfl), hstate]
    rfl
  | update | command | watchdog =>
    simp only [SessionMessage.isWritten, Bool.false_eq_true, false_or, ite_not]
    exact hevents

theorem view_turn (h : l.view.skips = .ofState l.state) (now : Nat) (m : SessionMessage) :
    (l.turn setup now m).view =
      if m.isWritten ∨ SkipView.ofState (l.turn setup now m).state ≠ .ofState l.state then
        l.view.succeed (.ofState (l.turn setup now m).state)
      else l.view := by
  have hlast := (leadsTo_viewsOn setup now l m).getLast?_eq
  rw [viewsOn_eq h now m] at hlast
  split at hlast
  · rename_i hpublishes
    rw [if_pos hpublishes]
    exact (Option.some.inj hlast).symm
  · rename_i hquiet
    rw [if_neg hquiet]
    exact (Option.some.inj hlast).symm

/-- The generation grows on exactly the messages that publish a view. -/
theorem generation_lt_turn_iff (h : l.view.skips = .ofState l.state) (now : Nat)
    (m : SessionMessage) :
    l.view.generation < (l.turn setup now m).view.generation ↔
      m.isWritten ∨ SkipView.ofState (l.turn setup now m).state ≠ .ofState l.state := by
  by_cases hpublishes : m.isWritten ∨ SkipView.ofState (l.turn setup now m).state ≠ .ofState l.state
  · rw [view_turn h, if_pos hpublishes]
    exact iff_of_true (Nat.lt_succ_self _) hpublishes
  · rw [view_turn h, if_neg hpublishes]
    exact iff_of_false (Nat.lt_irrefl _) hpublishes

/-! ## Every run -/

theorem leadsTo_publishedViews (setup : SessionSetup) (start : Nat)
    (ms : List (Nat × SessionMessage)) :
    PollView.first.LeadsTo (initial.viewsOf [.loadStart] ++ (opening setup start).viewsIn setup ms)
      ((opening setup start).after setup ms).view := by
  refine (leadsTo_viewsOf [.loadStart] initial).append ?_
  have hview : (opening setup start).view = ([SessionEvent.loadStart].foldl dispatch initial).view :=
    view_arm setup start SessionLoop.start
  rw [← hview]
  exact leadsTo_viewsIn (opening setup start) ms

theorem publishedViews_prefix (setup : SessionSetup) (start : Nat)
    (ms ns : List (Nat × SessionMessage)) :
    publishedViews setup start ms <+: publishedViews setup start (ms ++ ns) := by
  rw [publishedViews, publishedViews, viewsIn_append, ← List.append_assoc, ← List.cons_append]
  exact List.prefix_append _ _

theorem view_mem_publishedViews (setup : SessionSetup) (start : Nat)
    (ms : List (Nat × SessionMessage)) :
    ((opening setup start).after setup ms).view ∈ publishedViews setup start ms :=
  List.mem_of_getLast? (leadsTo_publishedViews setup start ms).getLast?_eq

/-- How the views that a loop has published hang together with what its session has skipped. -/
structure Mirrors (setup : SessionSetup) (l : SessionLoop) (views : List PollView) : Prop where
  /-- The published view shows what the session has skipped. -/
  skips_view : l.view.skips = .ofState l.state
  /-- It is the last of the views that were published. -/
  getLast?_views : views.getLast? = some l.view
  /-- Of two views that were published the later one has the higher generation. -/
  pairwise_views : views.Pairwise fun v w => v.generation < w.generation
  /-- No message lowers the generation. -/
  generation_le : ∀ now m, l.view.generation ≤ (l.turn setup now m).view.generation
  /-- The end of a write raises it, and so does a message that changes what is skipped; no other
      message does. -/
  generation_lt_iff : ∀ now m, l.view.generation < (l.turn setup now m).view.generation ↔
    m.isWritten ∨ SkipView.ofState (l.turn setup now m).state ≠ .ofState l.state
  /-- An update that was fetched under any of the views and has the generation of the last one was
      fetched with exactly the skipped concepts put off. -/
  putOff_eq : ∀ u : PollUpdate, u.view ∈ views → u.view.generation = l.view.generation →
    u.view.putOff = l.state.skipped.ids

/-- Whatever messages a loop handles at whatever times, its published views mirror the session. -/
theorem mirrors_after (setup : SessionSetup) (start : Nat) (ms : List (Nat × SessionMessage)) :
    Mirrors setup ((opening setup start).after setup ms) (publishedViews setup start ms) := by
  have hleads := leadsTo_publishedViews setup start ms
  have hskips : ((opening setup start).after setup ms).view.skips =
      .ofState ((opening setup start).after setup ms).state :=
    skips_view_after (sound_opening start).skips_view ms
  refine ⟨hskips, hleads.getLast?_eq, hleads.pairwise, generation_le_turn,
    generation_lt_turn_iff hskips, fun u hu hg => ?_⟩
  rw [(hleads.upTo hu).eq_of_generation hg, PollView.putOff, hskips]
  rfl

end SessionLoop

/-! ## Sessions -/

namespace RunningSession

variable {σ : Type} {s : RunningSession σ}

/-- The message that the loop handles with an action, and when. -/
def messageSeen (s : RunningSession σ) (a : SessionAction σ) : List (Nat × SessionMessage) :=
  ((s.message? a).map fun m => (s.now, m)).toList

/-- The messages that the loop handles in a run, each with its time. -/
def messages (s : RunningSession σ) (as : List (SessionAction σ)) : List (Nat × SessionMessage) :=
  s.observed messageSeen as

theorem Acted.loop_eq_after {a : SessionAction σ} {t : RunningSession σ} (ha : s.Acted a t) :
    t.loop = s.loop.after s.setup (s.messageSeen a) := by
  rw [ha.loop_eq, messageSeen]
  cases s.message? a <;> rfl

/-- The loop of a session has come through the messages that it has handled. -/
theorem loop_of_acts? {as : List (SessionAction σ)} {t : RunningSession σ}
    (hrun : s.acts? as = some t) : t.loop = s.loop.after s.setup (s.messages as) := by
  refine acts?_induction (P := fun as t => t.loop = s.loop.after s.setup (s.messages as)) rfl ?_
    hrun
  intro as t a u hrun ht ha
  rw [ha.loop_eq_after, ht, setup_of_acts? hrun, messages, messages, observed_concat _ hrun,
    SessionLoop.after_append]

/-- A message hands the poller all views that the loop publishes on it, in their order. -/
theorem poller_handle_eq_foldl (h : s.loop.view.skips = .ofState s.loop.state)
    (m : SessionMessage) :
    (s.handle m).poller = (s.loop.viewsOn s.setup m).foldl Poller.publish s.poller := by
  have hpoller : (s.handle m).poller =
      if (s.loop.turn s.setup s.now m).view = s.loop.view then s.poller
      else s.poller.publish (s.loop.turn s.setup s.now m).view := by
    rw [handle_eq]
  rw [hpoller, SessionLoop.viewsOn_eq h s.now m, SessionLoop.view_turn h]
  split
  · exact if_neg (PollView.succeed_ne_self _ _)
  · exact if_pos rfl

/-- Everything that a poller has on its way was fetched under a view that its session has
    published. -/
theorem carries_publishedViews (setup : SessionSetup) (backend : ReviewBackend σ) (store : σ)
    (date : Instant) (pollInterval : Nat) {as : List (SessionAction σ)} {t : RunningSession σ}
    (hrun : (startOn setup backend store date pollInterval).acts? as = some t) :
    let views := SessionLoop.publishedViews setup 0
      ((startOn setup backend store date pollInterval).messages as)
    t.poller.Carries (fun v => v ∈ views) fun u => u.view ∈ views := by
  have hstart := sound_startOn setup backend store date pollInterval
  generalize hs : startOn setup backend store date pollInterval = s at hrun hstart ⊢
  refine acts?_induction (P := fun as t => t.poller.Carries
    (fun v => v ∈ SessionLoop.publishedViews setup 0 (s.messages as))
    fun u => u.view ∈ SessionLoop.publishedViews setup 0 (s.messages as)) ?_ ?_ hrun
  · rw [← hs]
    exact carries_startOn setup backend store date pollInterval _ _
  intro as t a u hrun ht ha
  have hgrows : SessionLoop.publishedViews setup 0 (s.messages as) ⊆
      SessionLoop.publishedViews setup 0 (s.messages (as ++ [a])) := by
    rw [messages, messages, observed_concat _ hrun]
    exact (SessionLoop.publishedViews_prefix ..).subset
  have hview : t.poller.view ∈ SessionLoop.publishedViews setup 0 (s.messages as) := by
    rw [(sound_of_acts? hstart hrun).view_eq, loop_of_acts? hrun, ← hs]
    exact SessionLoop.view_mem_publishedViews ..
  exact ha.carries ht (fun _ => hgrows hview) (fun _ _ hv => hgrows hv) (fun _ hu => hgrows hu)
    fun _ _ hv _ => hgrows hv

/-- The update comes of a fetch of the run, and every fetch that it can come of was asked for and
    answered with some concepts put off. -/
def FetchedWith (s : RunningSession σ) (as : List (SessionAction σ)) (u : PollUpdate)
    (ids : List String) : Prop :=
  (∃ f : FetchIn s as, f.Yields u) ∧ ∀ f : FetchIn s as, f.Yields u →
    f.asked.poller.view.putOff = ids ∧ f.answered.source ids = some u.candidate

/-- Whatever messages the loop of a session handles at whatever times, the view that it published
    last shows what the session has skipped; the generation never goes down, and it goes up on
    exactly the messages that end a write or change what is skipped, so that later views have higher
    generations. In every run of a session, the poller has that view, as it is handed each view that
    is published, and an update on its way with the generation of that view was fetched with exactly
    the concepts put off that the session has skipped. -/
theorem mirrors_skips (setup : SessionSetup) (backend : ReviewBackend σ) (store : σ)
    (date : Instant) (pollInterval : Nat) :
    let start := startOn setup backend store date pollInterval
    (∀ now ms, SessionLoop.Mirrors setup ((SessionLoop.opening setup now).after setup ms)
      (SessionLoop.publishedViews setup now ms)) ∧
    ∀ as s, start.acts? as = some s →
      SessionLoop.Mirrors setup s.loop (SessionLoop.publishedViews setup 0 (start.messages as)) ∧
      s.poller.view = s.loop.view ∧
      (∀ m, (s.handle m).poller = (s.loop.viewsOn s.setup m).foldl Poller.publish s.poller) ∧
      ∀ u ∈ s.poller.inTransit, u.view.generation = s.loop.view.generation →
        FetchedWith start as u s.loop.state.skipped.ids := by
  intro start
  refine ⟨SessionLoop.mirrors_after setup, fun as s hrun => ?_⟩
  have hsound := sound_of_acts? (sound_startOn setup backend store date pollInterval) hrun
  have hmirrors : SessionLoop.Mirrors setup s.loop
      (SessionLoop.publishedViews setup 0 (start.messages as)) := by
    rw [loop_of_acts? hrun]
    exact SessionLoop.mirrors_after setup 0 _
  refine ⟨hmirrors, hsound.view_eq, poller_handle_eq_foldl hmirrors.skips_view,
    fun u hu hg => ⟨?_, fun f hf => ?_⟩⟩
  · exact exists_fetchIn (carries_startOn setup backend store date pollInterval _ _) hrun hu
  have hcarries := carries_publishedViews setup backend store date pollInterval hrun
  have hputOff := hmirrors.putOff_eq u (hcarries.of_inTransit u hu) hg
  have hanswer : f.answered.source u.view.putOff = some u.candidate := hf.2
  rw [hputOff] at hanswer
  exact ⟨by rw [hf.1, hputOff], hanswer⟩

/-- A question is put on show, skipped, passed over, put on show again and answered, and then the
    write fails: all but the first show and the answer publish a view. In a session over a store,
    the question that comes back was fetched with itself put off. -/
theorem mirrors_skips_of_comesBack :
    let setup := oneQuestion.setup
    let c : ReviewCandidate := .found (.unreviewed "c")
    let skipped := IdSet.empty.insert "c"
    let ms : List (Nat × SessionMessage) :=
      [(1, .update ⟨c, .first⟩), (2, .command .skip), (3, .update ⟨c, 1, skipped, none⟩),
        (4, .update ⟨c, 2, skipped, some "c"⟩), (5, .command (.submit "answer" true 1)),
        (6, .written ⟨"c", "c", .error "offline"⟩)]
    let views := SessionLoop.publishedViews setup 0 ms
    views = [.first, ⟨1, skipped, none⟩, ⟨2, skipped, some "c"⟩, ⟨3, .empty⟩, ⟨4, .empty⟩] ∧
      (views.Pairwise fun v w => v.generation < w.generation) ∧
      PollView.putOff ⟨4, .empty⟩ = ((SessionLoop.opening setup 0).after setup ms).state.skipped.ids ∧
      ∃ s, oneQuestion.acts? comesBack = some s ∧
        skippedView.generation = s.loop.view.generation ∧ s.poller.view = s.loop.view ∧
        FetchedWith oneQuestion comesBack ⟨onlyCandidate, skippedView⟩ ["c"] := by
  intro setup c skipped ms views
  have hviews : views =
      [.first, ⟨1, skipped, none⟩, ⟨2, skipped, some "c"⟩, ⟨3, .empty⟩, ⟨4, .empty⟩] := by
    decide
  obtain ⟨hloop, hsession⟩ := mirrors_skips setup oneQuestion.backend oneQuestion.store .epoch 100
  obtain ⟨-, hpoller, -, hfetched⟩ := hsession comesBack _ acts?_comesBack
  have hlast : ⟨4, .empty⟩ ∈ views := by
    rw [hviews]
    simp
  have hputOff := (hloop 0 ms).putOff_eq ⟨c, ⟨4, .empty⟩⟩ hlast (by decide)
  refine ⟨hviews, (hloop 0 ms).pairwise_views, hputOff, _, acts?_comesBack, rfl, hpoller, ?_⟩
  exact hfetched ⟨onlyCandidate, skippedView⟩
    (Poller.mem_inTransit_of_mem_channel (List.mem_singleton.2 rfl)) rfl

end RunningSession

end SpacedReview
