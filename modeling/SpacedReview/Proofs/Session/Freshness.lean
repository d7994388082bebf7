import SpacedReview.Proofs.Session.Provenance

/-!
# Fresh questions

A question that is put on show was fetched after every write of the session that has ended, and
none is on its way for its concept. So everything that the learner had answered about the concept
was written, or had failed to be, before the fetch began.

## Main statements

- `RunningSession.fresh_of_installs` — no question shows a concept as it was before its last answer
-/

namespace SpacedReview

namespace RunningSession

variable {σ : Type} {s : RunningSession σ}

/-- An answer stays on its way until the loop handles the result of its write. -/
theorem Acted.inFlight_subset {a : SessionAction σ} {t : RunningSession σ} (ha : s.Acted a t)
    (hw : a.isWritten = false) : s.inFlight ⊆ t.inFlight := by
  cases ha with
  | receive | command =>
    rw [inFlight_handle]
    exact List.subset_append_left _ _
  | timeOut =>
    show s.inFlight ⊆ (s.handle .watchdog).inFlight
    rw [inFlight_handle]
    exact List.subset_append_left _ _
  | written => simp [SessionAction.isWritten] at hw
  | dateWrite hs | write _ hs | failWrite _ hs => simp [inFlight, hs]
  | _ => exact List.Subset.refl _

/-- Only an answer on its way is attempted to be written. -/
theorem mem_inFlight_of_attemptSeen {a : SessionAction σ} {x : Attempt}
    (hx : x ∈ s.attemptSeen a) : x.request.conceptId ∈ s.inFlight := by
  have hmem : ∀ (i : Nat) (w : Write), s.writes[i]? = some w → w.request.conceptId ∈ s.inFlight :=
    fun i w hw => List.mem_map_of_mem (List.mem_of_getElem? hw)
  cases a with
  | write i | failWrite i =>
    obtain ⟨w, hw, rfl⟩ := Option.map_eq_some_iff.1 (Option.mem_toList.1 hx)
    exact hmem i w hw
  | _ => simp [attemptSeen] at hx

/-- While no write ends, every answer that was on its way or is attempted to be written stays on its
    way. -/
theorem inFlight_subset_of_acts? {as : List (SessionAction σ)} {t : RunningSession σ}
    (hrun : s.acts? as = some t) (hw : ∀ a ∈ as, a.isWritten = false) :
    s.inFlight ⊆ t.inFlight ∧ ∀ x ∈ s.attempts as, x.request.conceptId ∈ t.inFlight := by
  refine acts?_induction (P := fun as t => (∀ a ∈ as, a.isWritten = false) →
    s.inFlight ⊆ t.inFlight ∧ ∀ x ∈ s.attempts as, x.request.conceptId ∈ t.inFlight)
    (fun _ => ⟨List.Subset.refl _, by simp [attempts, observed]⟩) ?_ hrun hw
  intro as t a u hrun ht ha hw
  obtain ⟨hsub, hattempts⟩ := ht fun b hb => hw b (List.mem_append_left _ hb)
  have hstep := ha.inFlight_subset (hw a (by simp))
  refine ⟨fun c hc => hstep (hsub hc), fun x hx => ?_⟩
  rw [attempts, observed_concat _ hrun] at hx
  rcases List.mem_append.1 hx with hx | hx
  · exact hstep (hattempts x hx)
  · exact hstep (mem_inFlight_of_attemptSeen hx)

/-- Without an answer about a concept on its way, none of them waits for its attempt. -/
theorem about_openRequests_of_not_mem {c : String} (h : c ∉ s.inFlight) :
    about c (openRequests s.writes) = [] :=
  about_openRequests_eq_nil h

/-- If no write has ended since a moment of a run, and no answer about the concept is on its way,
    then every answer about the concept had its attempt before that moment. -/
theorem Sound.about_answers_eq (h : s.Sound) (hs : s.writes = [])
    {before rest : List (SessionAction σ)} {asked t : RunningSession σ}
    (hbefore : s.acts? before = some asked) (hrest : asked.acts? rest = some t)
    (hw : ∀ a ∈ rest, a.isWritten = false) {c : String} (hc : c ∉ t.inFlight) :
    about c (s.answers (before ++ rest)) =
      about c ((s.attempts before).map Attempt.request) := by
  have hrun : s.acts? (before ++ rest) = some t := by rw [acts?_append, hbefore]; exact hrest
  obtain ⟨-, hattempts⟩ := inFlight_subset_of_acts? hrest hw
  -- An answer that is attempted to be written after that moment would still be on its way.
  have hnone : about c ((asked.attempts rest).map Attempt.request) = [] := by
    rw [about, List.filter_eq_nil_iff]
    intro r hr hrc
    obtain ⟨x, hx, rfl⟩ := List.mem_map.1 hr
    exact hc (of_decide_eq_true hrc ▸ hattempts x hx)
  have hall := h.about_answers hrun c
  rw [hs, about_append, about_append, about_openRequests_of_not_mem hc] at hall
  have hsplit : s.attempts (before ++ rest) = s.attempts before ++ asked.attempts rest :=
    observed_append _ hbefore rest
  rw [hsplit, List.map_append, about_append, hnone] at hall
  simpa [openRequests, about] using hall

/-- While a view is the one that was published last, no write ends. -/
theorem not_isWritten_of_generation {as : List (SessionAction σ)} {t : RunningSession σ}
    (hrun : s.acts? as = some t) (hg : t.loop.view.generation = s.loop.view.generation) :
    ∀ a ∈ as, a.isWritten = false := by
  have hle := generation_le_of_acts? hrun
  have hzero : as.countP SessionAction.isWritten = 0 := by omega
  intro a ha
  simpa using List.countP_eq_zero.1 hzero a ha

theorem sound_asked (h : s.Sound) {as : List (SessionAction σ)} (f : FetchIn s as) :
    f.asked.Sound :=
  sound_of_acts? h f.acts_before

/-- In every run of a session, the concepts that the loop holds back are those with an answer on
    its way, one for each. When a question is put on show, no answer about its concept is on its
    way. It comes of a fetch, and any fetch that it can come of was begun after every write that has
    ended so far, and therefore after every answer about the concept was written or had failed to
    be. If the review queue is not changed from outside, that fetch was answered from what the
    attempts to write have made of it. -/
theorem fresh_of_installs (setup : SessionSetup) (backend : ReviewBackend σ) (store : σ)
    (date : Instant) (pollInterval : Nat) {as : List (SessionAction σ)} {s : RunningSession σ}
    (hrun : (startOn setup backend store date pollInterval).acts? as = some s) :
    let start := startOn setup backend store date pollInterval
    (∀ c, c ∈ s.loop.committing ↔ c ∈ s.inFlight) ∧ s.inFlight.Nodup ∧
      ∀ u rest q, s.poller.channel = u :: rest → s.loop.Installs setup u q →
        q.candidate.concept.id ∉ s.inFlight ∧ u.candidate = .found q.candidate ∧
        (∃ f : FetchIn start as, f.Yields u) ∧
        ∀ f : FetchIn start as, f.Yields u →
          (∀ a ∈ f.during ++ .answerFetch :: f.later, a.isWritten = false) ∧
          about q.candidate.concept.id (start.answers as) =
            about q.candidate.concept.id ((start.attempts f.before).map Attempt.request) ∧
          ((∀ a ∈ as, a.isEdit = false) →
            f.answered.store = replay backend store (start.attempts (f.before ++ f.during))) := by
  intro start
  have hstart : start.Sound := sound_startOn setup backend store date pollInterval
  have hs : s.Sound := sound_of_acts? hstart hrun
  refine ⟨hs.mem_committing_iff, hs.nodup_inFlight, fun u rest q hu hq => ?_⟩
  obtain ⟨haccepts, hmem⟩ := hq
  obtain ⟨-, hg, hfree⟩ := SessionLoop.accepts_iff.1 haccepts
  have hc : u.candidate = .found q.candidate := (SessionState.applyAll_route_of_mem hmem).1
  have hin : q.candidate.concept.id ∉ s.inFlight := by
    rw [← hs.mem_committing_iff]
    exact hfree _ (by rw [hc]; rfl)
  have hfetch : ∃ f : FetchIn start as, f.Yields u :=
    exists_fetchIn (carries_startOn setup backend store date pollInterval _ _) hrun
      (Poller.mem_inTransit_of_mem_channel (hu ▸ List.mem_cons_self))
  refine ⟨hin, hc, hfetch, fun f hf => ?_⟩
  -- The loop has let the update pass, so its view is still the one that was published last.
  have hview : s.loop.view.generation = f.asked.loop.view.generation := by
    rw [← hg, ← hf.1, (sound_asked hstart f).view_eq]
  have hsince := f.acts_since hrun
  have hwritten := not_isWritten_of_generation hsince hview
  refine ⟨hwritten, ?_, fun hedit => ?_⟩
  · have h := hstart.about_answers_eq rfl f.acts_before hsince hwritten hin
    rwa [← f.eq_append] at h
  · refine store_eq_replay f.acts_answered fun a ha => hedit a ?_
    rw [f.eq_append, ← List.append_assoc]
    exact List.mem_append_left _ ha

/-- The learner is asked about a concept and answers. -/
theorem fresh_of_first_question :
    let setup : SessionSetup := ⟨"session", 1000, fun _ => "lock"⟩
    let backend : ReviewBackend Unit :=
      ⟨fun _ _ _ => .ok (.found (.unreviewed "c")),
        fun _ _ _ _ => ((), .error (.review (.conceptNotFound "c")))⟩
    let date : Instant := ⟨0, 0, by decide, by decide, by decide, by decide⟩
    let start := startOn setup backend () date 100
    let asked : List (SessionAction Unit) := [.startFetch, .answerFetch, .finishFetch]
    let answered : List (SessionAction Unit) := asked ++ [.receive, .command (.submit "c" true 5)]
    ∃ s t, start.acts? asked = some s ∧ "c" ∉ s.inFlight ∧
      (∃ f : FetchIn start asked, f.Yields ⟨.found (.unreviewed "c"), .first⟩) ∧
      start.acts? answered = some t ∧ t.inFlight = ["c"] ∧ "c" ∈ t.loop.committing := by
  intro setup backend date start asked answered
  have hs : ∃ s, start.acts? asked = some s ∧
      s.poller.channel = [⟨.found (.unreviewed "c"), .first⟩] ∧
      s.loop.Installs setup ⟨.found (.unreviewed "c"), .first⟩ ⟨.unreviewed "c", "lock"⟩ :=
    ⟨_, rfl, rfl, rfl, List.mem_singleton.2 rfl⟩
  have ht : ∃ t, start.acts? answered = some t ∧ t.inFlight = ["c"] := ⟨_, rfl, rfl⟩
  obtain ⟨s, hs, hu, hq⟩ := hs
  obtain ⟨t, ht, hc⟩ := ht
  obtain ⟨-, -, hfresh⟩ := fresh_of_installs setup backend () date 100 hs
  obtain ⟨hcommitting, -, -⟩ := fresh_of_installs setup backend () date 100 ht
  obtain ⟨hin, -, hfetch, -⟩ := hfresh _ _ _ hu hq
  refine ⟨s, t, hs, hin, hfetch, ht, hc, ?_⟩
  rw [hcommitting, hc]
  exact List.mem_singleton.2 rfl

end RunningSession

end SpacedReview
