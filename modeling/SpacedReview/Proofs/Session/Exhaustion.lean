import SpacedReview.Proofs.Review.PutOff
import SpacedReview.Proofs.Session.Fingerprints
import SpacedReview.Proofs.Session.Views

/-!
# Exhaustion

A session that gets a skipped concept back takes it for a sign that every due concept is skipped:
it passes over the concept, and when it comes again it forgets what was skipped. The sign is true.
The update was fetched under the very concepts that the session has skipped, and the review queue
only names one of them when every due concept with a phrasing to show is among them.

## Main definitions

- `SessionLoop.TakenForExhausted` — the loop acts on an update as if every due concept were skipped

## Main statements

- `RunningSession.skipped_of_takenForExhausted` — every due concept with a phrasing to show is
  skipped
-/

namespace SpacedReview

namespace SessionLoop

variable {setup : SessionSetup} {l : SessionLoop} {now : Nat} {u : PollUpdate}

/-- On the update, the loop passes over a concept, forgets the skipped ones or says so, puts a
    skipped concept on show, or changes what is skipped though a concept was found. -/
inductive TakenForExhausted (setup : SessionSetup) (now : Nat) (l : SessionLoop)
    (u : PollUpdate) : Prop where
  | passesOver {id : String} : .autoSkip id ∈ l.dispatched setup u → TakenForExhausted setup now l u
  | forgets : .clearSkipped ∈ l.dispatched setup u → TakenForExhausted setup now l u
  | notifies {id : String} : .exhausted id ∈ l.noticesFor setup (.update u) →
      TakenForExhausted setup now l u
  | showsSkipped {q : Question} : l.Installs setup u q →
      q.candidate.concept.id ∈ l.state.skipped → TakenForExhausted setup now l u
  | changes {c : FoundCandidate} : u.candidate = .found c →
      (l.turn setup now (.update u)).state.skipped ≠ l.state.skipped →
      TakenForExhausted setup now l u

theorem TakenForExhausted.accepts (h : l.TakenForExhausted setup now u) : l.accepts u := by
  cases h with
  | passesOver he | forgets he => exact accepts_of_mem_dispatched he
  | notifies hn => exact accepts_of_mem_dispatched (mem_noticesFor_update.1 hn).1
  | showsSkipped hq => exact hq.1
  | changes _ hne =>
    by_contra ha
    rw [state_turn_update, dispatched, if_neg ha] at hne
    exact hne rfl

/-- Whichever way an update is taken for a sign of exhaustion, the loop forgets what was skipped or
    passes over a concept, or the update is about a skipped concept. -/
theorem TakenForExhausted.mem_dispatched (h : l.TakenForExhausted setup now u) :
    .clearSkipped ∈ l.dispatched setup u ∨ (∃ id, .autoSkip id ∈ l.dispatched setup u) ∨
      ∃ c, u.candidate = .found c ∧ c.concept.id ∈ l.state.skipped := by
  have haccepts := h.accepts
  cases h with
  | @passesOver id he => exact .inr (.inl ⟨id, he⟩)
  | forgets he => exact .inl he
  | notifies hn => exact .inl (mem_noticesFor_update.1 hn).1
  | showsSkipped hq hid => exact .inr (.inr ⟨_, (SessionState.applyAll_route_of_mem hq.2).1, hid⟩)
  | @changes c hc hne =>
    have hr := l.state.routed_route u.candidate (setup.lock l.locksUsed)
    rw [state_turn_update] at hne
    rw [← dispatched_of_accepts haccepts, hc] at hr
    generalize l.dispatched setup u = events at hr hne
    cases hr with
    | ignored | installed | passedOver => exact absurd rfl hne
    | exhausted => exact .inl List.mem_cons_self

/-- An update is only taken for a sign of exhaustion if it counts and is about a skipped concept. -/
theorem TakenForExhausted.exists_found (h : l.TakenForExhausted setup now u) :
    l.accepts u ∧ ∃ c, u.candidate = .found c ∧ c.concept.id ∈ l.state.skipped := by
  have hr := l.state.routed_route u.candidate (setup.lock l.locksUsed)
  have hevents := h.mem_dispatched
  rw [← dispatched_of_accepts h.accepts] at hr
  refine ⟨h.accepts, ?_⟩
  generalize l.dispatched setup u = events at hr hevents
  generalize u.candidate = c at hr hevents
  cases hr with
  | ignored | installed => simpa using hevents
  | emptied => simp at hevents
  | @exhausted c _ hid | @passedOver c _ hid => exact ⟨c, rfl, hid⟩

end SessionLoop

namespace RunningSession

variable {σ : Type} [ReviewStore σ]

/-- In every run of a session over a store, whatever is changed in the store meanwhile: when the
    loop acts on an update as if every due concept were skipped, then the update was fetched under
    what the session has skipped at that moment, and of the store as it was at that fetch every due
    concept with a phrasing to show is skipped. -/
theorem skipped_of_takenForExhausted (setup : SessionSetup) (e : Engine) (store : σ)
    (date : Instant) (pollInterval : Nat) {as : List (SessionAction σ)} {s : RunningSession σ}
    (hrun : (start setup e store date pollInterval).acts? as = some s) {u : PollUpdate}
    {rest : List PollUpdate} (hu : s.poller.channel = u :: rest)
    (h : s.loop.TakenForExhausted setup s.now u) :
    let start := start setup e store date pollInterval
    u.view.skips = .ofState s.loop.state ∧ (∃ f : FetchIn start as, f.Yields u) ∧
      ∀ f : FetchIn start as, f.Yields u →
        ∀ c, Askable f.answered.store f.answered.fetchDate c → c.id ∈ s.loop.state.skipped := by
  intro start
  have hstart : start.Sound := sound_startOn setup (.service e) store date pollInterval
  have hcarries := fun asked came =>
    carries_startOn setup (.service e) store date pollInterval asked came
  have hmem := Poller.mem_inTransit_of_mem_channel (hu ▸ List.mem_cons_self)
  obtain ⟨haccepts, c, hc, hid⟩ := h.exists_found
  have hview : u.view = s.loop.view :=
    view_eq_of_accepts hstart (hcarries _ _) hrun hmem haccepts
  have hskips : u.view.skips = .ofState s.loop.state := by
    rw [hview]
    exact (sound_of_acts? hstart hrun).loop.skips_view
  have hputOff : u.view.putOff = s.loop.state.skipped.ids := by
    rw [PollView.putOff, hskips]
    rfl
  refine ⟨hskips, exists_fetchIn (hcarries _ _) hrun hmem, fun f hf d hd => ?_⟩
  have hnext : nextCandidate e f.answered.store f.answered.fetchDate s.loop.state.skipped.ids =
      .ok (.found c) := by
    have houtcome := hf.2
    have hbackend : f.answered.backend = .service e := backend_of_acts? f.acts_answered
    rw [outcome, hbackend, hputOff, hc] at houtcome
    split at houtcome
    · rename_i candidate hnext
      rw [← Option.some.inj houtcome]
      exact hnext
    · cases houtcome
  exact id_mem_of_found hnext hid hd

/-! ## A single question -/

section Answers

variable {σ : Type} {s : RunningSession σ} {v : PollView} {c : ReviewCandidate}

/-- The session with the answer to a fetch on its way. -/
def onItsWay (s : RunningSession σ) (c : ReviewCandidate) (v : PollView) : RunningSession σ :=
  { s with poller := { s.poller with
    stage := .waiting, lastForwarded := some (fingerprint v c),
    channel := s.poller.channel ++ [⟨c, v⟩] } }

theorem act?_answerFetch (hstage : s.poller.stage = .fetching v) (hc : s.outcome v = some c) :
    s.act? .answerFetch =
      some { s with poller := { s.poller with stage := .answered v (some c) } } := by
  simp only [act?, hstage, Poller.answerFetch, hc]

/-- The answer to a fetch is sent on its way if it is news and finds room in the channel. -/
theorem acts?_answer (hstage : s.poller.stage = .fetching v) (hc : s.outcome v = some c)
    (hnews : s.poller.lastForwarded ≠ some (fingerprint v c)) (hr : s.poller.isReceived)
    (hroom : s.poller.channel.length < s.poller.capacity) :
    s.acts? [.answerFetch, .finishFetch] = some (s.onItsWay c v) := by
  have hn : news? s.poller.lastForwarded v (some c) = some ⟨c, v⟩ :=
    news?_eq_some.2 ⟨rfl, rfl, hnews⟩
  show (s.act? .answerFetch).bind _ = _
  rw [act?_answerFetch hstage hc]
  simp only [onItsWay, Option.bind_some, List.foldlM_cons, List.foldlM_nil, act?,
    Poller.finishFetch, hn, Poller.send, hr, Bool.not_true, Bool.false_eq_true, if_false, if_pos hroom]
  rfl

theorem outcome_eq_some (h : s.backend.next s.store s.fetchDate v.putOff = .ok c) :
    s.outcome v = some c := by
  rw [outcome, h]

end Answers

/-- What a session over a store is started with. -/
def sampleSetup : SessionSetup :=
  ⟨"session", 1000, fun i => .ofList (.replicate i 'x')⟩

/-- A session over a store. -/
def sampleStart {σ : Type} [ReviewStore σ] (store : σ) : RunningSession σ :=
  start sampleSetup Parameters.standard.engine store .epoch 100

/-- A session with one question. -/
def oneQuestion : RunningSession VolatileStore :=
  sampleStart (VolatileStore.empty.addQuestion "c" .epoch)

/-- The question of a session with one question. -/
def onlyCandidate : ReviewCandidate :=
  .found (VolatileStore.newQuestion "c" .epoch)

theorem outcome_oneQuestion {s : RunningSession VolatileStore}
    (hb : s.backend = oneQuestion.backend) (hstore : s.store = oneQuestion.store)
    (hdate : s.fetchDate = .epoch) (v : PollView) : s.outcome v = some onlyCandidate := by
  refine outcome_eq_some ?_
  rw [hb, hstore, hdate]
  exact VolatileStore.nextCandidate_addQuestion _ "c" .epoch v.putOff

/-- The session when its question is on its way for the first time. -/
def oneQuestionAsked : RunningSession VolatileStore :=
  (oneQuestion.act .startFetch).onItsWay onlyCandidate .first

theorem acts?_oneQuestionAsked :
    oneQuestion.acts? ([.startFetch] ++ [.answerFetch, .finishFetch]) = some oneQuestionAsked := by
  have hstart : oneQuestion.acts? [.startFetch] = some (oneQuestion.act .startFetch) := rfl
  rw [acts?_append, hstart, Option.bind_some]
  exact acts?_answer rfl (outcome_oneQuestion rfl rfl rfl .first) (Option.some_ne_none _).symm rfl
    (by decide)

/-- The session when its question was skipped and is fetched again. -/
def oneQuestionSkipped : RunningSession VolatileStore :=
  ((oneQuestionAsked.act .receive).act (.command .skip)).act .startViewFetch

/-- The view of the session when its question was skipped. -/
def skippedView : PollView :=
  ⟨1, IdSet.empty.insert "c", none⟩

theorem fingerprint_skippedView :
    fingerprint .first onlyCandidate ≠ fingerprint skippedView onlyCandidate :=
  fingerprint_ne (by decide +kernel)

/-- The only question is skipped and comes back. -/
def comesBack : List (SessionAction VolatileStore) :=
  [.startFetch] ++ [.answerFetch, .finishFetch] ++ [.receive, .command .skip, .startViewFetch] ++
    [.answerFetch, .finishFetch]

theorem acts?_comesBack : oneQuestion.acts? comesBack =
    some (oneQuestionSkipped.onItsWay onlyCandidate skippedView) := by
  have hskip : oneQuestionAsked.acts? [.receive, .command .skip, .startViewFetch] =
      some oneQuestionSkipped := rfl
  have hlast : oneQuestionSkipped.poller.lastForwarded =
      some (fingerprint .first onlyCandidate) := rfl
  have hsecond : oneQuestionSkipped.acts? [.answerFetch, .finishFetch] =
      some (oneQuestionSkipped.onItsWay onlyCandidate skippedView) :=
    acts?_answer rfl (outcome_oneQuestion rfl rfl rfl skippedView)
      (fun h => fingerprint_skippedView (Option.some.inj (hlast.symm.trans h))) rfl (by decide)
  rw [comesBack, acts?_append, acts?_append, acts?_oneQuestionAsked, Option.bind_some, hskip,
    Option.bind_some, hsecond]

theorem skipped_of_comesBack :
    ∃ s, oneQuestion.acts? comesBack = some s ∧
      s.poller.channel = [⟨onlyCandidate, skippedView⟩] ∧
      s.loop.TakenForExhausted s.setup s.now ⟨onlyCandidate, skippedView⟩ ∧
      skippedView.skips = .ofState s.loop.state ∧
      ∃ f : FetchIn oneQuestion comesBack, f.Yields ⟨onlyCandidate, skippedView⟩ ∧
        ∀ c, Askable f.answered.store f.answered.fetchDate c → c.id ∈ s.loop.state.skipped := by
  have hchannel : (oneQuestionSkipped.onItsWay onlyCandidate skippedView).poller.channel =
      [⟨onlyCandidate, skippedView⟩] := rfl
  have htaken : (oneQuestionSkipped.onItsWay onlyCandidate skippedView).loop.TakenForExhausted
      oneQuestion.setup 0 ⟨onlyCandidate, skippedView⟩ := by
    have hmem : SessionEvent.autoSkip "c" ∈ oneQuestionSkipped.loop.dispatched oneQuestion.setup
        ⟨onlyCandidate, skippedView⟩ := List.mem_singleton.2 rfl
    exact .passesOver hmem
  obtain ⟨hskips, ⟨f, hf⟩, hall⟩ := skipped_of_takenForExhausted oneQuestion.setup
    Parameters.standard.engine oneQuestion.store .epoch 100 acts?_comesBack hchannel htaken
  exact ⟨_, acts?_comesBack, hchannel, htaken, hskips, f, hf, hall f hf⟩

end RunningSession

end SpacedReview
