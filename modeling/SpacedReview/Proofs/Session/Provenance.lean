import SpacedReview.Proofs.Session.History

/-!
# Where updates come from

A fetch takes its time: it is asked for under the view of one moment and answered from the store of
another, and its result waits again before the loop sees it. `Poller.Carries` says of every view
that is asked for and of every result on its way that it has a property, and
`RunningSession.FetchIn` are the moments of a fetch in a run.

## Main definitions

- `Poller.Carries` — what holds of all that a poller has on its way
- `RunningSession.FetchIn` — a fetch of a run

## Main statements

- `Poller.Carries.acted` — what an action has to do with what is on its way
- `RunningSession.exists_fetchIn` — every update on its way comes of a fetch
-/

namespace SpacedReview

namespace Poller

/-- All that a poller has on its way: the view that a fetch was begun under, the result that a fetch
    has come to, and the updates that the loop has not received. -/
structure Carries (p : Poller) (asked : PollView → Prop) (came : PollUpdate → Prop) : Prop where
  of_fetching : ∀ v, p.stage = .fetching v → asked v
  of_answered : ∀ v c, p.stage = .answered v (some c) → came ⟨c, v⟩
  of_inTransit : ∀ u ∈ p.inTransit, came u

variable {p : Poller} {asked asked' : PollView → Prop} {came came' : PollUpdate → Prop}

theorem mem_inTransit_of_mem_channel {u : PollUpdate} (h : u ∈ p.channel) : u ∈ p.inTransit :=
  List.mem_append_left _ h

/-- With no update that waits for room, the channel is all that is in transit. -/
theorem inTransit_eq_channel (h : ∀ u, p.stage ≠ .sending u) : p.inTransit = p.channel := by
  unfold inTransit
  split
  · rename_i u hu
    exact absurd hu (h u)
  · exact List.append_nil _

theorem mem_inTransit_of_sending {u w : PollUpdate} (h : p.stage = .sending u)
    (hw : w ∈ p.inTransit) : w ∈ p.channel ∨ w = u := by
  simpa [inTransit, h] using hw

theorem Carries.mono (h : p.Carries asked came) (ha : ∀ v, asked v → asked' v)
    (hc : ∀ u, came u → came' u) : p.Carries asked' came' :=
  ⟨fun v hv => ha v (h.of_fetching v hv), fun v c hv => hc _ (h.of_answered v c hv),
    fun u hu => hc u (h.of_inTransit u hu)⟩

theorem Carries.of_waiting (hs : p.stage = .waiting) (hc : ∀ u ∈ p.channel, came u) :
    p.Carries asked came := by
  refine ⟨by simp [hs], by simp [hs], fun u hu => hc u ?_⟩
  rwa [inTransit_eq_channel (by simp [hs])] at hu

theorem Carries.of_fetch {v : PollView} (hs : p.stage = .fetching v) (ha : asked v)
    (hc : ∀ u ∈ p.channel, came u) : p.Carries asked came := by
  refine ⟨?_, by simp [hs], fun u hu => hc u ?_⟩
  · intro w hw
    rw [hs, PollStage.fetching.injEq] at hw
    exact hw ▸ ha
  · rwa [inTransit_eq_channel (by simp [hs])] at hu

theorem Carries.of_answer {v : PollView} {o : FetchOutcome} (hs : p.stage = .answered v o)
    (ho : ∀ c, o = some c → came ⟨c, v⟩) (hc : ∀ u ∈ p.channel, came u) :
    p.Carries asked came := by
  refine ⟨by simp [hs], ?_, fun u hu => hc u ?_⟩
  · intro w c hw
    rw [hs, PollStage.answered.injEq] at hw
    exact hw.1 ▸ ho c hw.2
  · rwa [inTransit_eq_channel (by simp [hs])] at hu

/-- Sending puts an update in transit, or stops the poller. -/
theorem Carries.send (hc : ∀ u ∈ p.channel, came u) {u : PollUpdate} (hu : came u) :
    (p.send u).Carries asked came := by
  rcases p.send_cases u with ⟨-, hs⟩ | ⟨-, hs⟩ | ⟨-, hs⟩
  · rw [hs]
    refine ⟨by simp, by simp, fun w hw => hc w ?_⟩
    rwa [inTransit_eq_channel (by simp)] at hw
  · rw [hs]
    refine .of_waiting rfl fun w hw => ?_
    rcases List.mem_append.1 hw with hw | hw
    · exact hc w hw
    · exact List.mem_singleton.1 hw ▸ hu
  · rw [hs]
    refine ⟨by simp, by simp, fun w hw => ?_⟩
    rcases mem_inTransit_of_sending rfl hw with hw | rfl
    · exact hc w hw
    · exact hu

/-- A view that is published leaves what is on its way alone. -/
theorem Carries.publish (h : p.Carries asked came) (v : PollView) :
    (p.publish v).Carries asked came :=
  ⟨h.of_fetching, h.of_answered, h.of_inTransit⟩

end Poller

namespace RunningSession

variable {σ : Type} {s : RunningSession σ} {asked asked' : PollView → Prop}
  {came came' : PollUpdate → Prop}

theorem carries_handle (h : s.poller.Carries asked came) (m : SessionMessage) :
    (s.handle m).poller.Carries asked came := by
  rcases s.poller_handle m with ⟨hp, -⟩ | hp
  · rw [hp]
    exact h
  · rw [hp]
    exact h.publish _

/-- What an action has to do with what is on its way: a fetch is begun under the view of the poller,
    and its result is what the review queue answers; the rest only moves on. -/
theorem Acted.carries {a : SessionAction σ} {t : RunningSession σ} (ha : s.Acted a t)
    (h : s.poller.Carries asked came) (hbegin : a.beginsFetch → asked' s.poller.view)
    (hasked : a.beginsFetch = false → ∀ v, asked v → asked' v)
    (hcame : ∀ u, came u → came' u)
    (hanswer : a = .answerFetch → ∀ u, asked u.view → s.outcome u.view = some u.candidate →
      came' u) : t.poller.Carries asked' came' := by
  have hchannel : ∀ u ∈ s.poller.channel, came' u := fun u hu =>
    hcame u (h.of_inTransit u (Poller.mem_inTransit_of_mem_channel hu))
  cases ha with
  | pass | setDate | edit | dateWrite | write | failWrite => exact h.mono (hasked rfl) hcame
  | startFetch | startViewFetch => exact .of_fetch rfl (hbegin rfl) hchannel
  | answerFetch hv =>
    exact .of_answer rfl (fun c hc => hanswer rfl ⟨c, _⟩ (h.of_fetching _ hv) hc) hchannel
  | failFetch hv => exact .of_answer rfl (by simp) hchannel
  | suppress => exact .of_waiting rfl hchannel
  | @forward v o u hv hn =>
    obtain ⟨rfl, rfl, -⟩ := news?_eq_some.1 hn
    exact Poller.Carries.send (p := { s.poller with lastForwarded := some u.fingerprint }) hchannel
      (hcame u (h.of_answered u.view u.candidate hv))
  | resend hu =>
    exact .send hchannel (hcame _ (h.of_inTransit _ (by simp [Poller.inTransit, hu])))
  | @receive u rest hc =>
    refine carries_handle (s := { s with poller := { s.poller with channel := rest } }) ?_ _
    refine Poller.Carries.mono ⟨h.of_fetching, h.of_answered, fun w hw => h.of_inTransit w ?_⟩
      (hasked rfl) hcame
    simp only [Poller.inTransit, hc, List.cons_append] at hw ⊢
    exact List.mem_cons_of_mem u hw
  | command => exact carries_handle (h.mono (hasked rfl) hcame) _
  | @written earlier later w r =>
    exact carries_handle (s := { s with writes := earlier ++ later }) (h.mono (hasked rfl) hcame) _
  | timeOut => exact ⟨by simp [Poller.stop, Poller.close], by simp [Poller.stop, Poller.close],
      by simp [Poller.inTransit, Poller.stop, Poller.close]⟩

/-! ## Fetches -/

/-- Of some actions the first one, and no other, begins a fetch. -/
def BeginsOnce (as : List (SessionAction σ)) : Prop :=
  ∃ a rest, as = a :: rest ∧ a.beginsFetch ∧ ∀ b ∈ rest, b.beginsFetch = false

/-- A fetch that was begun and answered in a run. -/
structure FetchIn (s : RunningSession σ) (as : List (SessionAction σ)) where
  /-- The actions before the fetch began. -/
  before : List (SessionAction σ)
  /-- The actions from the beginning of the fetch until the review queue answered it. -/
  during : List (SessionAction σ)
  /-- The actions since the review queue answered the fetch. -/
  later : List (SessionAction σ)
  /-- The session when the fetch began. -/
  asked : RunningSession σ
  /-- The session when the review queue answered the fetch. -/
  answered : RunningSession σ
  eq_append : as = before ++ (during ++ .answerFetch :: later)
  acts_before : s.acts? before = some asked
  acts_during : asked.acts? during = some answered
  beginsOnce : BeginsOnce during

namespace FetchIn

variable {as : List (SessionAction σ)}

/-- The fetch was begun under the view of the update and has its candidate as its result. -/
def Yields (f : FetchIn s as) (u : PollUpdate) : Prop :=
  f.asked.poller.view = u.view ∧ f.answered.outcome u.view = some u.candidate

theorem acts_since (f : FetchIn s as) {t : RunningSession σ} (hrun : s.acts? as = some t) :
    f.asked.acts? (f.during ++ .answerFetch :: f.later) = some t := by
  rw [f.eq_append, acts?_append, f.acts_before] at hrun
  exact hrun

theorem acts_answered (f : FetchIn s as) : s.acts? (f.before ++ f.during) = some f.answered := by
  rw [acts?_append, f.acts_before]
  exact f.acts_during

/-- A fetch of a run is one of the longer run, too. -/
def concat (f : FetchIn s as) (a : SessionAction σ) : FetchIn s (as ++ [a]) where
  before := f.before
  during := f.during
  later := f.later ++ [a]
  asked := f.asked
  answered := f.answered
  eq_append := by
    have h := congrArg (fun bs => bs ++ [a]) f.eq_append
    simpa using h
  acts_before := f.acts_before
  acts_during := f.acts_during
  beginsOnce := f.beginsOnce

end FetchIn

/-- A fetch under the view was begun in a run and has not been answered. -/
def IsAsked (s : RunningSession σ) (as : List (SessionAction σ)) (v : PollView) : Prop :=
  ∃ before during asked, as = before ++ during ∧ s.acts? before = some asked ∧
    asked.poller.view = v ∧ BeginsOnce during

theorem IsAsked.concat {as : List (SessionAction σ)} {v : PollView} (h : s.IsAsked as v)
    {a : SessionAction σ} (ha : a.beginsFetch = false) : s.IsAsked (as ++ [a]) v := by
  obtain ⟨before, during, asked, rfl, hbefore, hv, b, rest, rfl, hb, hrest⟩ := h
  refine ⟨before, b :: (rest ++ [a]), asked, by simp, hbefore, hv, b, rest ++ [a], rfl, hb, ?_⟩
  intro c hc
  rcases List.mem_append.1 hc with hc | hc
  · exact hrest c hc
  · exact List.mem_singleton.1 hc ▸ ha

/-- An answer ends a fetch that was begun. -/
theorem IsAsked.exists_fetchIn {as : List (SessionAction σ)} {t : RunningSession σ}
    {u : PollUpdate} (h : s.IsAsked as u.view) (hrun : s.acts? as = some t)
    (hu : t.outcome u.view = some u.candidate) :
    ∃ f : FetchIn s (as ++ [.answerFetch]), f.Yields u := by
  obtain ⟨before, during, asked, rfl, hbefore, hv, hbegins⟩ := h
  rw [acts?_append, hbefore] at hrun
  exact ⟨⟨before, during, [], asked, t, by simp, hbefore, hrun, hbegins⟩, hv, hu⟩

/-- In a session that starts with nothing on its way, every update on its way comes of a fetch. -/
theorem exists_fetchIn (h0 : s.poller.Carries (fun _ => False) fun _ => False)
    {as : List (SessionAction σ)} {t : RunningSession σ} (hrun : s.acts? as = some t)
    {u : PollUpdate} (hu : u ∈ t.poller.inTransit) : ∃ f : FetchIn s as, f.Yields u := by
  -- The channel alone says nothing of the fetch that fills it, so the induction is about all that
  -- the poller has on its way.
  have hcarries : t.poller.Carries (s.IsAsked as) fun u => ∃ f : FetchIn s as, f.Yields u := by
    refine acts?_induction (P := fun as t => t.poller.Carries (s.IsAsked as) fun u =>
      ∃ f : FetchIn s as, f.Yields u) (h0.mono (fun _ h => h.elim) fun _ h => h.elim) ?_ hrun
    intro as t a t' hrun ht ha
    refine ha.carries ht ?_ (fun hb v hv => hv.concat hb) ?_ ?_
    · intro hb
      exact ⟨as, [a], t, rfl, hrun, rfl, a, [], rfl, hb, by simp⟩
    · rintro u ⟨f, hf⟩
      exact ⟨f.concat a, hf⟩
    · rintro rfl u hu hc
      exact hu.exists_fetchIn hrun hc
  exact hcarries.of_inTransit u hu

theorem carries_startOn (setup : SessionSetup) (backend : ReviewBackend σ) (store : σ)
    (date : Instant) (pollInterval : Nat) (asked : PollView → Prop) (came : PollUpdate → Prop) :
    (startOn setup backend store date pollInterval).poller.Carries asked came := by
  by_cases hp : pollInterval = 0
  · refine ⟨?_, ?_, ?_⟩ <;> simp [startOn, Poller.start, Poller.inTransit, hp]
  · refine ⟨?_, ?_, ?_⟩ <;> simp [startOn, Poller.start, Poller.inTransit, hp]

end RunningSession

end SpacedReview
