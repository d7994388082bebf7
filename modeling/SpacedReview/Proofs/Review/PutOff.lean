import SpacedReview.Proofs.Review.NextQuestion

/-!
# What is asked before what

Whatever a store reports, whether its records are in order or not: what is asked could be asked, and
it comes before everything else that could be. So a concept that is put off is only asked when
everything that could be asked is put off.

## Main definitions

- `Askable` — a due concept with a phrasing that can be shown, as a store reports it

## Main statements

- `askable_of_found` — what is asked, and what could have been
- `id_mem_of_found` — what it means that a put-off concept is asked
-/

namespace SpacedReview

variable {σ : Type} [ReviewStore σ] {e : Engine} {store : σ} {now : Instant}
  {putOff : List String}

/-- The store reports the concept as due, and one of its phrasings was neither archived nor
    deleted. -/
def Askable (store : σ) (now : Instant) (c : Concept) : Prop :=
  (∃ due, ReviewStore.due store now none = .ok due ∧ c ∈ due) ∧
    ∃ ps, ReviewStore.phrasingsOf store c.id = .ok ps ∧
      ∃ p ∈ ps, p.archivedAt = none ∧ p.deletedAt = none

/-! ## One concept -/

theorem not_askable_of_candidateFor? {c : Concept} (h : candidateFor? e store now c = .ok none) :
    ¬ Askable store now c := by
  rintro ⟨-, ps, hps, p, hp, hshown⟩
  have hshow : p ∈ showable none ps := Phrasing.mem_showable.2 ⟨hp, hshown⟩
  have hchosen := chosen_selectPreferred c.canonicalPhrasing ps
  simp only [candidateFor?, hps, Except.mapError, bind, Except.bind] at h
  cases hq : (selectPreferred c.canonicalPhrasing ps).phrasing? with
  | none =>
    rw [hq] at hchosen
    rw [hchosen.eq_nil] at hshow
    cases hshow
  | some q =>
    rw [hq] at h
    cases hh : ReviewStore.recent store q.id historyLimit <;>
      simp [hh, pure, Except.pure] at h

/-- A candidate is about the phrasing that is chosen of those that the store reports, and comes with
    its place among them. -/
theorem chosen_of_candidateFor? {c : Concept} {f : FoundCandidate}
    (h : candidateFor? e store now c = .ok (some f)) :
    f.concept = c ∧ ∃ ps, ReviewStore.phrasingsOf store c.id = .ok ps ∧
      Chosen c.canonicalPhrasing (showable none ps) (some f.phrasing) f.selectionReason ∧
      f.phrasingStats = phrasingStats? ps f.phrasing.id := by
  unfold candidateFor? at h
  cases hps : ReviewStore.phrasingsOf store c.id with
  | error err => simp [hps, Except.mapError, bind, Except.bind] at h
  | ok ps =>
    have hchosen := chosen_selectPreferred c.canonicalPhrasing ps
    simp only [hps, Except.mapError, bind, Except.bind] at h
    cases hp : (selectPreferred c.canonicalPhrasing ps).phrasing? with
    | none => simp [hp, pure, Except.pure] at h
    | some p =>
      rw [hp] at hchosen
      cases hh : ReviewStore.recent store p.id historyLimit with
      | error err => simp [hp, hh] at h
      | ok history =>
        simp only [hp, hh, pure, Except.pure, Except.ok.injEq, Option.some.injEq] at h
        rw [← h]
        exact ⟨rfl, ps, rfl, hchosen, rfl⟩

theorem shown_of_candidateFor? {c : Concept} {f : FoundCandidate}
    (h : candidateFor? e store now c = .ok (some f)) :
    f.concept = c ∧ ∃ ps, ReviewStore.phrasingsOf store c.id = .ok ps ∧
      ∃ p ∈ ps, p.archivedAt = none ∧ p.deletedAt = none := by
  obtain ⟨heq, ps, hps, hchosen, -⟩ := chosen_of_candidateFor? h
  exact ⟨heq, ps, hps, f.phrasing, Phrasing.mem_showable.1 hchosen.mem⟩

/-! ## Several concepts -/

theorem candidateFor?_of_nothing {cs : List Concept}
    (h : firstCandidate e store now cs = .ok .empty) :
    ∀ c ∈ cs, candidateFor? e store now c = .ok none := by
  induction cs with
  | nil => simp
  | cons c cs ih =>
    rw [firstCandidate] at h
    cases hc : candidateFor? e store now c with
    | error err => simp [hc, bind, Except.bind] at h
    | ok found =>
      cases found with
      | none =>
        simp only [hc, bind, Except.bind] at h
        exact List.forall_mem_cons.2 ⟨hc, ih h⟩
      | some g => simp [hc, bind, Except.bind, pure, Except.pure] at h

/-- The candidate is about the first concept that makes one. -/
theorem exists_of_firstCandidate {cs : List Concept} {f : FoundCandidate}
    (h : firstCandidate e store now cs = .ok (.found f)) :
    ∃ before after, cs = before ++ f.concept :: after ∧
      candidateFor? e store now f.concept = .ok (some f) ∧
      ∀ c ∈ before, candidateFor? e store now c = .ok none := by
  induction cs with
  | nil => simp [firstCandidate, pure, Except.pure] at h
  | cons c cs ih =>
    rw [firstCandidate] at h
    cases hc : candidateFor? e store now c with
    | error err => simp [hc, bind, Except.bind] at h
    | ok found =>
      cases found with
      | none =>
        simp only [hc, bind, Except.bind] at h
        obtain ⟨before, after, rfl, hf, hbefore⟩ := ih h
        exact ⟨c :: before, after, rfl, hf, List.forall_mem_cons.2 ⟨hc, hbefore⟩⟩
      | some g =>
        simp only [hc, bind, Except.bind, pure, Except.pure, Except.ok.injEq,
          ReviewCandidate.found.injEq] at h
        obtain rfl := h
        obtain ⟨heq, -⟩ := shown_of_candidateFor? hc
        exact ⟨[], cs, by rw [heq]; rfl, by rw [heq]; exact hc, by simp⟩

/-! ## What is asked -/

theorem exists_due_of_nextCandidate {answer : ReviewCandidate}
    (h : nextCandidate e store now putOff = .ok answer) :
    ∃ due, ReviewStore.due store now none = .ok due ∧
      firstCandidate e store now (askingOrder e now putOff due) = .ok answer := by
  cases hdue : ReviewStore.due store now none with
  | error err => simp [nextCandidate, hdue, Except.mapError, bind, Except.bind] at h
  | ok due =>
    refine ⟨due, rfl, ?_⟩
    simpa only [nextCandidate, hdue, Except.mapError, bind, Except.bind] using h

/-- If something could be asked, then something is asked, unless the store fails. -/
theorem exists_found_of_askable {c : Concept} (hc : Askable store now c)
    {answer : ReviewCandidate} (h : nextCandidate e store now putOff = .ok answer) :
    ∃ f, answer = .found f := by
  obtain ⟨due, hdue, hfirst⟩ := exists_due_of_nextCandidate h
  match answer with
  | .pending => exact absurd hfirst (firstCandidate_ne_pending e store now _)
  | .found f => exact ⟨f, rfl⟩
  | .empty =>
    obtain ⟨⟨due', hdue', hmem⟩, -⟩ := id hc
    obtain rfl := Except.ok.inj (hdue.symm.trans hdue')
    have hnone := candidateFor?_of_nothing hfirst c ((askingOrder_perm due).mem_iff.2 hmem)
    exact absurd hc (not_askable_of_candidateFor? hnone)

/-- What is asked could be asked, and comes before everything else that could be. -/
theorem askable_of_found {f : FoundCandidate}
    (h : nextCandidate e store now putOff = .ok (.found f)) :
    Askable store now f.concept ∧ ∀ c, Askable store now c → f.concept.id ≠ c.id →
      e.AsksBefore now putOff f.concept c := by
  obtain ⟨due, hdue, hfirst⟩ := exists_due_of_nextCandidate h
  obtain ⟨before, after, heq, hf, hbefore⟩ := exists_of_firstCandidate hfirst
  have hmem (c : Concept) : c ∈ before ++ f.concept :: after ↔ c ∈ due := by
    rw [← heq]
    exact (askingOrder_perm due).mem_iff
  refine ⟨⟨⟨due, hdue, (hmem _).1 (by simp)⟩, (shown_of_candidateFor? hf).2⟩, fun c hc hne => ?_⟩
  obtain ⟨⟨due', hdue', hdueMem⟩, -⟩ := id hc
  obtain rfl := Except.ok.inj (hdue.symm.trans hdue')
  have horder : (before ++ f.concept :: after).Pairwise fun a b => a.id ≠ b.id →
      e.AsksBefore now putOff a b := by
    rw [← heq]
    exact pairwise_askingOrder_of_ne due
  -- A concept before the one that is asked would have been asked itself.
  rcases List.mem_append.1 ((hmem c).2 hdueMem) with hmem | hmem
  · exact absurd hc (not_askable_of_candidateFor? (hbefore c hmem))
  · rcases List.mem_cons.1 hmem with rfl | hmem
    · exact absurd rfl hne
    · exact (List.pairwise_cons.1 (List.pairwise_append.1 horder).2.1).1 c hmem hne

/-- If the question to ask next is about a concept that is put off, then every concept that could be
    asked is put off. -/
theorem id_mem_of_found {f : FoundCandidate}
    (h : nextCandidate e store now putOff = .ok (.found f)) (hf : f.concept.id ∈ putOff)
    {c : Concept} (hc : Askable store now c) : c.id ∈ putOff := by
  by_cases hid : f.concept.id = c.id
  · exact hid ▸ hf
  · rcases (askable_of_found h).2 c hc hid with ⟨hn, -⟩ | ⟨hiff, -⟩
    · exact absurd hf hn
    · exact hiff.1 hf

/-- A store reports the candidates of the records that it holds. -/
theorem Representation.askable_iff (r : Representation σ) {s : VolatileStore}
    (hs : r.Holds store s) (hnow : r.Legible now) {c : Concept} :
    Askable store now c ↔ s.IsCandidate now c := by
  have hdue : ReviewStore.due store now none = .ok (s.due now none) := r.due hs now hnow
  have hps : ReviewStore.phrasingsOf store c.id = .ok (s.phrasingsOf c.id) := r.phrasingsOf hs c.id
  simp only [Askable, hdue, hps, Except.ok.injEq, exists_eq_left', VolatileStore.mem_due,
    VolatileStore.IsCandidate, and_assoc]
  refine and_congr_right fun _ => and_congr_right fun _ => exists_congr fun p => ?_
  rw [← VolatileStore.mem_showable_phrasingsOf, Phrasing.mem_showable]

end SpacedReview
