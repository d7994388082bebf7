import SpacedReview.Proofs.Review.Choice
import SpacedReview.Proofs.Review.Priority
import SpacedReview.Proofs.Store.Representation

/-!
# The next question

The question to ask next is about the first due concept that has a phrasing to show, and nothing is
asked only if no due concept has one. The phrasing is the preferred one of the concept, or the one
seen least, and it comes with its latest interactions.

## Main definitions

- `VolatileStore.IsCandidate` — a due concept with a phrasing that can be shown
- `VolatileStore.IsAnswer` — the answer that the records of a store call for

## Main statements

- `VolatileStore.exists_isAnswer` — what a volatile store answers
- `answers_of_distinct_of_filled` — the answers of both stores
-/

namespace SpacedReview

namespace VolatileStore

variable {s : VolatileStore} {e : Engine} {now : Instant} {putOff : List String}

/-- A phrasing of the concept that can be shown: it was neither archived nor deleted. -/
def Shows (s : VolatileStore) (c : Concept) (p : Phrasing) : Prop :=
  p ∈ s.phrasings ∧ p.conceptId = c.id ∧ p.archivedAt = none ∧ p.deletedAt = none

/-- A due concept with a phrasing that can be shown. -/
def IsCandidate (s : VolatileStore) (now : Instant) (c : Concept) : Prop :=
  c ∈ s.concepts ∧ c.isDue now ∧ ∃ p, s.Shows c p

/-- The phrasing to ask of a concept: the one that the concept points at, if it can be shown, and
    otherwise the one with the least key, of which the oldest. -/
inductive IsChoice (s : VolatileStore) (c : Concept) (p : Phrasing) : SelectionReason → Prop
  | canonical : s.Shows c p → c.canonicalPhrasing = some p.id → IsChoice s c p .canonical
  | leastSeen : s.Shows c p → (∀ q, s.Shows c q → c.canonicalPhrasing ≠ some q.id) →
      (∀ q, s.Shows c q → q ≠ p →
        p.seenKey < q.seenKey ∨ p.seenKey = q.seenKey ∧ compareAge p q = .lt) →
      IsChoice s c p .leastSeen

/-- The latest interactions with a phrasing, newest first and of two at one instant the one written
    later first. The number beside an interaction is how many were written after it. -/
def IsHistory (s : VolatileStore) (p : Phrasing) (history : List Interaction) : Prop :=
  ∃ sorted : List (Interaction × Nat),
    sorted.Perm (s.log.filter (·.phrasingId = p.id)).reverse.zipIdx ∧
    sorted.Pairwise (fun i j => j.1.attemptedAt < i.1.attemptedAt ∨
      i.1.attemptedAt = j.1.attemptedAt ∧ i.2 < j.2) ∧
    history = (sorted.map (·.1)).take historyLimit

/-- The answer that the records call for: the candidate that is asked before every other one, with
    its phrasing and history, or none if there is no candidate. -/
def IsAnswer (s : VolatileStore) (e : Engine) (now : Instant) (putOff : List String) :
    ReviewCandidate → Prop
  | .pending => False
  | .empty => ∀ c, ¬ s.IsCandidate now c
  | .found f =>
    s.IsCandidate now f.concept ∧
    (∀ c, s.IsCandidate now c → c ≠ f.concept → e.AsksBefore now putOff f.concept c) ∧
    s.IsChoice f.concept f.phrasing f.selectionReason ∧
    s.IsHistory f.phrasing f.interactionHistory

/-! ## Records in order -/

instance : Std.TransCmp compareAge :=
  inferInstanceAs (Std.TransCmp (compareLex (compareOn Phrasing.createdAt) (compareOn Phrasing.id)))

theorem id_eq_of_compareAge {p q : Phrasing} (h : compareAge p q = .eq) : p.id = q.id := by
  rw [compareAge, Ordering.then_eq_eq] at h
  exact Std.LawfulEqOrd.eq_of_compare h.2

theorem pairwise_phrasingsOf (h : s.Distinct) (id : String) :
    (s.phrasingsOf id).Pairwise fun p q => compareAge p q = .lt := by
  have hids : s.phrasings.Pairwise fun p q => p.id ≠ q.id := List.pairwise_map.1 h.phrasings
  exact pairwise_lt_mergeSort compareAge
    ((hids.filter _).imp fun hne heq => hne (id_eq_of_compareAge heq))

theorem mem_showable_phrasingsOf {c : Concept} {p : Phrasing} :
    p ∈ showable none (s.phrasingsOf c.id) ↔ s.Shows c p := by
  rw [Phrasing.mem_showable, phrasingsOf, List.mem_mergeSort, List.mem_filter, decide_eq_true_iff,
    and_assoc]
  rfl

theorem mem_due {c : Concept} : c ∈ s.due now none ↔ c ∈ s.concepts ∧ c.isDue now := by
  show c ∈ List.mergeSort _ _ ↔ _
  rw [List.mem_mergeSort, List.mem_filter]

theorem nodup_due_of_concepts (h : (s.concepts.map Concept.id).Nodup) :
    ((s.due now none).map Concept.id).Nodup := by
  have hperm : ((s.due now none).map Concept.id).Perm
      ((s.concepts.filter (·.isDue now)).map Concept.id) := (List.mergeSort_perm _ _).map _
  exact hperm.nodup_iff.2 (h.sublist (List.filter_sublist.map _))

theorem nodup_due (h : s.Distinct) : ((s.due now none).map Concept.id).Nodup :=
  nodup_due_of_concepts h.concepts

/-- The order of interactions: the latest first. -/
def compareLatest (i j : Interaction) : Ordering :=
  compare j.attemptedAt i.attemptedAt

instance : Std.TransCmp compareLatest :=
  inferInstanceAs (Std.TransCmp (flip (compareOn Interaction.attemptedAt)))

theorem isHistory_recent (s : VolatileStore) (p : Phrasing) :
    s.IsHistory p (s.recent p.id historyLimit) := by
  obtain ⟨sorted, hperm, hsorted, hmap⟩ := exists_places_mergeSort compareLatest
    (s.log.filter (·.phrasingId = p.id)).reverse
  refine ⟨sorted, hperm, hsorted.imp fun {i j} hij => ?_, by rw [hmap]; rfl⟩
  rcases hij with hlt | ⟨heq, hplace⟩
  · exact .inl (Instant.compare_eq_lt.1 hlt)
  · exact .inr ⟨(Std.LawfulEqOrd.eq_of_compare heq).symm, hplace⟩

/-! ## One concept -/

theorem isChoice_of_chosen (h : s.Distinct) {c : Concept} {p : Phrasing} {reason : SelectionReason}
    (hchosen : Chosen c.canonicalPhrasing (showable none (s.phrasingsOf c.id)) (some p) reason) :
    s.IsChoice c p reason := by
  cases hchosen with
  | canonical hp hpreferred => exact .canonical (mem_showable_phrasingsOf.1 hp) hpreferred
  | @leastSeen _ before after heq hother hbefore hafter =>
    have hage : (before ++ p :: after).Pairwise fun p q => compareAge p q = .lt := by
      rw [← heq]
      exact (pairwise_phrasingsOf h c.id).filter _
    have hp : p ∈ showable none (s.phrasingsOf c.id) := by simp [heq]
    refine .leastSeen (mem_showable_phrasingsOf.1 hp)
      (fun q hq => hother q (mem_showable_phrasingsOf.2 hq)) ?_
    intro q hq hne
    have hq : q ∈ before ++ p :: after := by
      rw [← heq]
      exact mem_showable_phrasingsOf.2 hq
    -- The phrasings before the chosen one are older and seen more, those after it are younger.
    rcases List.mem_append.1 hq with hq | hq
    · exact .inl (hbefore q hq)
    · rcases List.mem_cons.1 hq with rfl | hq
      · exact absurd rfl hne
      · have hyounger := (List.pairwise_cons.1 (List.pairwise_append.1 hage).2.1).1 q hq
        exact (hafter q hq).lt_or_eq.imp_right fun hkey => ⟨hkey, hyounger⟩

/-- A concept makes a candidate if one of its phrasings can be shown. -/
theorem candidateFor?_cases (h : s.Distinct) (e : Engine) (now : Instant) (c : Concept) :
    (candidateFor? e s now c = .ok none ∧ ∀ p, ¬ s.Shows c p) ∨
    ∃ f, candidateFor? e s now c = .ok (some f) ∧ f.concept = c ∧
      s.IsChoice c f.phrasing f.selectionReason ∧ s.IsHistory f.phrasing f.interactionHistory := by
  have hphrasings : ReviewStore.phrasingsOf s c.id = .ok (s.phrasingsOf c.id) := rfl
  have hchosen := chosen_selectPreferred c.canonicalPhrasing (s.phrasingsOf c.id)
  simp only [candidateFor?, hphrasings, Except.mapError, bind, Except.bind]
  cases hp : (selectPreferred c.canonicalPhrasing (s.phrasingsOf c.id)).phrasing? with
  | none =>
    rw [hp] at hchosen
    refine .inl ⟨rfl, fun p hshows => ?_⟩
    generalize (selectPreferred c.canonicalPhrasing (s.phrasingsOf c.id)).reason = reason at hchosen
    cases hchosen with
    | nothing hnil => simpa [hnil] using mem_showable_phrasingsOf.2 hshows
  | some p =>
    rw [hp] at hchosen
    exact .inr ⟨_, rfl, rfl, isChoice_of_chosen h hchosen, isHistory_recent s p⟩

/-! ## All concepts -/

/-- Going through concepts in order, the first one with a phrasing to show is the candidate. -/
theorem firstCandidate_cases (h : s.Distinct) (e : Engine) (now : Instant) (cs : List Concept) :
    (firstCandidate e s now cs = .ok .empty ∧ ∀ c ∈ cs, ∀ p, ¬ s.Shows c p) ∨
    ∃ before c after f, cs = before ++ c :: after ∧ (∀ d ∈ before, ∀ p, ¬ s.Shows d p) ∧
      firstCandidate e s now cs = .ok (.found f) ∧ f.concept = c ∧
      s.IsChoice c f.phrasing f.selectionReason ∧ s.IsHistory f.phrasing f.interactionHistory := by
  induction cs with
  | nil => exact .inl ⟨rfl, by simp⟩
  | cons c cs ih =>
    rw [firstCandidate]
    rcases candidateFor?_cases h e now c with ⟨hc, hnone⟩ | ⟨f, hc, hf⟩
    · rw [hc]
      rcases ih with ⟨hcs, hall⟩ | ⟨before, d, after, f, rfl, hbefore, hd⟩
      · exact .inl ⟨hcs, List.forall_mem_cons.2 ⟨hnone, hall⟩⟩
      · exact .inr ⟨c :: before, d, after, f, rfl, List.forall_mem_cons.2 ⟨hnone, hbefore⟩, hd⟩
    · rw [hc]
      exact .inr ⟨[], c, cs, f, rfl, by simp, rfl, hf⟩

theorem IsChoice.shows {c : Concept} {p : Phrasing} {reason : SelectionReason}
    (h : s.IsChoice c p reason) : s.Shows c p := by
  cases h with
  | canonical hp => exact hp
  | leastSeen hp => exact hp

/-- Of a concept that prefers no phrasing the one that is seen least is asked. -/
theorem IsChoice.least {c : Concept} {p : Phrasing} {reason : SelectionReason}
    (h : s.IsChoice c p reason) (hnone : c.canonicalPhrasing = none) {q : Phrasing}
    (hq : s.Shows c q) (hne : q ≠ p) :
    p.seenKey < q.seenKey ∨ p.seenKey = q.seenKey ∧ compareAge p q = .lt := by
  cases h with
  | canonical _ hpreferred =>
    rw [hnone] at hpreferred
    cases hpreferred
  | leastSeen _ _ hleast => exact hleast q hq hne

theorem exists_isAnswer (h : s.Distinct) (e : Engine) (now : Instant) (putOff : List String) :
    ∃ answer, nextCandidate e s now putOff = .ok answer ∧ s.IsAnswer e now putOff answer := by
  have hmem (c : Concept) : c ∈ askingOrder e now putOff (s.due now none) ↔
      c ∈ s.concepts ∧ c.isDue now := by
    rw [(askingOrder_perm _).mem_iff, mem_due]
  have horder : (askingOrder e now putOff (s.due now none)).Pairwise (e.AsksBefore now putOff) :=
    pairwise_askingOrder (nodup_due h)
  show ∃ answer, firstCandidate e s now (askingOrder e now putOff (s.due now none)) = .ok answer ∧ _
  rcases firstCandidate_cases h e now (askingOrder e now putOff (s.due now none)) with
    ⟨hanswer, hall⟩ | ⟨before, c, after, f, heq, hbefore, hanswer, rfl, hchoice, hhistory⟩
  · refine ⟨.empty, hanswer, ?_⟩
    rintro c ⟨hc, hdue, p, hp⟩
    exact hall c ((hmem c).2 ⟨hc, hdue⟩) p hp
  · refine ⟨.found f, hanswer, ?_, ?_, hchoice, hhistory⟩
    · have hc := (hmem f.concept).1 (by simp [heq])
      exact ⟨hc.1, hc.2, _, hchoice.shows⟩
    · rintro d ⟨hd, hdue, p, hp⟩ hne
      have hd : d ∈ before ++ f.concept :: after := by
        rw [← heq]
        exact (hmem d).2 ⟨hd, hdue⟩
      rw [heq] at horder
      -- What comes before the answer in the order is no candidate.
      rcases List.mem_append.1 hd with hd | hd
      · exact absurd hp (hbefore d hd p)
      · rcases List.mem_cons.1 hd with rfl | hd
        · exact absurd rfl hne
        · exact (List.pairwise_cons.1 (List.pairwise_append.1 horder).2.1).1 d hd

/-- A store with these records reports the due concepts and answers as its records call for. If the
    answer is about a concept that is put off, then every other concept that could be asked is put
    off as well. -/
structure Answers {σ : Type} [ReviewStore σ] (s : VolatileStore) (e : Engine) (store : σ)
    (now : Instant) (putOff : List String) : Prop where
  due : ∃ due, ReviewStore.due store now none = .ok due ∧
    ∀ c, c ∈ due ↔ c ∈ s.concepts ∧ c.isDue now
  next : ∃ answer, nextCandidate e store now putOff = .ok answer ∧ s.IsAnswer e now putOff answer
  putOff : ∀ f, nextCandidate e store now putOff = .ok (.found f) → f.concept.id ∈ putOff →
    ∀ c, s.IsCandidate now c → c.id ∈ putOff

theorem id_mem_of_isAnswer {f : FoundCandidate} (h : s.IsAnswer e now putOff (.found f))
    (hf : f.concept.id ∈ putOff) {c : Concept} (hc : s.IsCandidate now c) : c.id ∈ putOff := by
  by_cases heq : c = f.concept
  · rw [heq]
    exact hf
  · rcases h.2.1 c hc heq with ⟨hnot, -⟩ | ⟨hiff, -⟩
    · exact absurd hf hnot
    · exact hiff.1 hf

theorem answers_of_holds {σ : Type} [ReviewStore σ] {r : Representation σ} {store : σ}
    (hs : r.Holds store s) (hnow : r.Legible now) (e : Engine) (putOff : List String) :
    s.Answers e store now putOff := by
  obtain ⟨answer, hanswer, hright⟩ := exists_isAnswer (r.distinct hs) e now putOff
  rw [← r.nextCandidate hs hnow] at hanswer
  refine ⟨⟨s.due now none, r.due hs now hnow, fun c => mem_due⟩, ⟨answer, hanswer, hright⟩, ?_⟩
  intro f hfound hf c hc
  rw [hfound, Except.ok.injEq] at hanswer
  subst hanswer
  exact id_mem_of_isAnswer hright hf hc

end VolatileStore

/-- Every volatile store, and every database that was filled by its own changes at times in the
    years 0 to 9999, answers what to ask next as its records call for. -/
theorem answers_of_distinct_of_filled (e : Engine) (now : Instant) (putOff : List String) :
    (∀ s : VolatileStore, s.Distinct → s.Answers e s now putOff) ∧
    ∀ db : DatabaseStore, db.Filled → now.HasPlainYear →
      ∃ s, db.contents = .ok s ∧ s.Answers e db now putOff := by
  refine ⟨fun s hs => ?_, fun db hdb hnow => ?_⟩
  · have hholds : VolatileStore.representation.Holds s s := ⟨rfl, hs⟩
    exact VolatileStore.answers_of_holds hholds trivial e putOff
  · obtain ⟨s, hkept, hdistinct, rfl⟩ := hdb.exists_tables
    exact ⟨s, DatabaseStore.contents_tables hkept, VolatileStore.answers_of_holds
      (r := DatabaseStore.representation) ⟨rfl, hkept, hdistinct⟩ hnow e putOff⟩

/-! ## Stores of new questions -/

namespace VolatileStore

/-- The store with one more concept, which was never reviewed and is due at once, and one phrasing
    of it. Both have the identifier. -/
def addQuestion (s : VolatileStore) (id : String) (now : Instant) : VolatileStore :=
  { s with
    concepts := s.concepts ++ [.create id "title" (.fresh now) now]
    phrasings := s.phrasings ++ [.create id id "question" "answer" now] }

variable {s : VolatileStore} {id : String} {now : Instant}

theorem Kept.addQuestion (h : s.Kept) (hnow : now.IsMicro) : (s.addQuestion id now).Kept := by
  refine ⟨?_, ?_, h.log⟩
  · intro c hc
    rcases List.mem_append.1 hc with hc | hc
    · exact h.concepts c hc
    · rw [List.mem_singleton.1 hc]
      exact Concept.within_create _ _ (MemoryState.within_fresh hnow) hnow
  · intro p hp
    rcases List.mem_append.1 hp with hp | hp
    · exact h.phrasings p hp
    · rw [List.mem_singleton.1 hp]
      exact Phrasing.within_create _ _ _ _ hnow

/-- A database that a new phrasing is put into is filled by its own changes too. -/
theorem filled_insertPhrasing (h : DatabaseStore.Filled s.tables) {p : Phrasing}
    (hp : p.Within Instant.IsMicro) (hconcept : Keyed.has Concept.id s.concepts p.conceptId)
    (hphrasing : ¬ Keyed.has Phrasing.id s.phrasings p.id) :
    DatabaseStore.Filled { s with phrasings := s.phrasings ++ [p] : VolatileStore }.tables := by
  have hput : Keyed.put Phrasing.id s.phrasings p.kept = s.phrasings ++ [p] := by
    rw [Phrasing.kept_of_within hp, Keyed.put_of_not_has _ hphrasing]
  have hinsert : s.tables.insertPhrasing p =
      .ok { s with phrasings := s.phrasings ++ [p] : VolatileStore }.tables := by
    rw [← hput]
    exact insertPhrasing_tables_eq_ok.2 ⟨hphrasing, hconcept, rfl⟩
  have hwithin : (StoreChange.insertPhrasing p).Within Instant.HasPlainYear (fun _ => True) :=
    ⟨fun t ht => (hp.lastAttemptedAt t ht).1, hp.createdAt.1, fun t ht => (hp.archivedAt t ht).1,
      fun t ht => (hp.deletedAt t ht).1⟩
  exact h.change hwithin hinsert

theorem filled_addQuestion (h : DatabaseStore.Filled s.tables) (hnow : now.IsMicro)
    (hconcept : ¬ Keyed.has Concept.id s.concepts id)
    (hphrasing : ¬ Keyed.has Phrasing.id s.phrasings id) :
    DatabaseStore.Filled (s.addQuestion id now).tables := by
  let c := Concept.create id "title" (.fresh now) now
  have hc : c.Within Instant.IsMicro Binary64.IsPlain :=
    Concept.within_create _ _ (MemoryState.within_fresh hnow) hnow
  have hput : s.insertConcept c = { s with concepts := s.concepts ++ [c] } := by
    rw [insertConcept, Keyed.put_of_not_has _ hconcept]
  have hinsert : s.tables.insertConcept c =
      .ok { s with concepts := s.concepts ++ [c] : VolatileStore }.tables := by
    rw [← hput]
    exact insertConcept_tables_eq_ok.2
      ⟨⟨hc.memory.stability.1, hc.memory.difficulty.1⟩, hconcept, by rw [Concept.kept_of_within hc]⟩
  have hwithin : (StoreChange.insertConcept c).Within Instant.HasPlainYear (fun _ => True) :=
    ⟨⟨trivial, trivial, fun t ht => (hc.memory.lastReview t ht).1, hc.memory.nextReview.1⟩,
      hnow.1, hnow.1⟩
  exact filled_insertPhrasing (h.change hwithin hinsert) (Phrasing.within_create _ _ _ _ hnow)
    ((Keyed.has_iff _).2 ⟨c, List.mem_append_right _ List.mem_cons_self, rfl⟩) hphrasing

/-- A question of a store as it is asked for the first time. -/
def newQuestion (id : String) (now : Instant) : FoundCandidate :=
  { concept := .create id "title" (.fresh now) now,
    phrasing := .create id id "question" "answer" now, phrasingStats := some ⟨1, 1⟩,
    selectionReason := .leastSeen, retrievability := unreviewedRecall, interactionHistory := [] }

theorem isDue_newQuestion (id : String) (now : Instant) : (newQuestion id now).concept.isDue now :=
  decide_eq_true (Instant.le_iff.2 (.inr ⟨rfl, Nat.le_refl _⟩))

/-- A concept with one new phrasing makes a new question. -/
theorem candidateFor?_newQuestion {σ : Type} [ReviewStore σ] {store : σ} (e : Engine)
    (later : Instant)
    (hps : ReviewStore.phrasingsOf store id = .ok [(newQuestion id now).phrasing])
    (hrecent : ReviewStore.recent store id historyLimit = .ok []) :
    candidateFor? e store later (newQuestion id now).concept =
      .ok (some (newQuestion id now)) := by
  let c := (newQuestion id now).concept
  let p := (newQuestion id now).phrasing
  have hps : ReviewStore.phrasingsOf store c.id = .ok [p] := hps
  have hrecent : ReviewStore.recent store p.id historyLimit = .ok [] := hrecent
  have hchoice : (selectPreferred c.canonicalPhrasing [p]).phrasing? = some p := rfl
  have hstats : phrasingStats? [p] p.id = some ⟨1, 1⟩ := by
    have hable : showable none [p] = [p] := rfl
    simp [phrasingStats?, sortByAge, hable]
  simp only [candidateFor?, hps, hrecent, hchoice, hstats, Except.mapError, bind, Except.bind,
    pure, Except.pure, c]
  rfl

/-- A question that is alone in its store is asked even if it is put off. -/
theorem nextCandidate_addQuestion (e : Engine) (id : String) (now : Instant)
    (putOff : List String) :
    nextCandidate e (empty.addQuestion id now) now putOff =
      .ok (.found (newQuestion id now)) := by
  let c := (newQuestion id now).concept
  let p := (newQuestion id now).phrasing
  have hdue : ReviewStore.due (empty.addQuestion id now) now none = .ok [c] := by
    have hfilter : [c].filter (·.isDue now) = [c] := by simp [c, isDue_newQuestion]
    show Except.ok (List.mergeSort ([c].filter (·.isDue now)) _) = _
    rw [hfilter, List.mergeSort_singleton]
  have horder : askingOrder e now putOff [c] = [c] :=
    List.perm_singleton.1 (askingOrder_perm [c])
  have hps : ReviewStore.phrasingsOf (empty.addQuestion id now) id = .ok [p] := by
    have hfilter : [p].filter (·.conceptId = id) = [p] := by simp [p, newQuestion, Phrasing.create]
    show Except.ok (List.mergeSort ([p].filter (·.conceptId = id)) _) = _
    rw [hfilter, List.mergeSort_singleton]
  have hrecent : ReviewStore.recent (empty.addQuestion id now) id historyLimit = .ok [] := by
    show Except.ok (List.take historyLimit (List.mergeSort [] _)) = _
    simp
  have hcandidate := candidateFor?_newQuestion e now hps hrecent
  simp only [nextCandidate, hdue, horder, firstCandidate, hcandidate, Except.mapError, bind,
    Except.bind, c]
  rfl

/-- Two questions that are due at the same time. -/
def twoQuestions (now : Instant) : VolatileStore :=
  (empty.addQuestion "a" now).addQuestion "b" now

theorem kept_twoQuestions (h : now.IsMicro) : (twoQuestions now).Kept :=
  (kept_empty.addQuestion h).addQuestion h

theorem filled_twoQuestions (h : now.IsMicro) : (twoQuestions now).tables.Filled :=
  filled_addQuestion (filled_addQuestion .empty h (by decide) (by decide)) h
    (by simp [Keyed.has_iff, addQuestion, empty, Concept.create])
    (by simp [Keyed.has_iff, addQuestion, empty, Phrasing.create])

theorem distinct_twoQuestions (now : Instant) : (twoQuestions now).Distinct := by
  constructor <;> simp [twoQuestions, addQuestion, empty, Concept.create, Phrasing.create]

/-- Of two questions that are due at one instant, the identifiers tell the order. -/
theorem compare_twoQuestions (now : Instant) :
    (Ordering.eq.then (compare now now)).then (compare "a" "b") = .lt := by
  have hself : compare now now = .eq := Std.ReflCmp.compare_self
  rw [hself]
  decide

/-- The first of the two questions has priority. -/
theorem comparePriority_twoQuestions (e : Engine) (now : Instant) :
    e.comparePriority now (newQuestion "a" now).concept (newQuestion "b" now).concept = .lt :=
  compare_twoQuestions now

theorem due_twoQuestions (now : Instant) : (twoQuestions now).due now none =
    [(newQuestion "a" now).concept, (newQuestion "b" now).concept] := by
  have hfilter : (twoQuestions now).concepts.filter (·.isDue now) =
      [(newQuestion "a" now).concept, (newQuestion "b" now).concept] := by
    show List.filter _ [(newQuestion "a" now).concept, (newQuestion "b" now).concept] = _
    simp [isDue_newQuestion]
  have hlt : compareDue (newQuestion "a" now).concept (newQuestion "b" now).concept = .lt :=
    compare_twoQuestions now
  show List.mergeSort ((twoQuestions now).concepts.filter (·.isDue now)) _ = _
  rw [hfilter]
  exact List.mergeSort_of_pairwise (by simp [hlt])

theorem candidateFor?_twoQuestions (e : Engine) (now : Instant) {id : String}
    (hid : id ∈ ["a", "b"]) :
    candidateFor? e (twoQuestions now) now (newQuestion id now).concept =
      .ok (some (newQuestion id now)) := by
  have hfilter : (twoQuestions now).phrasings.filter (·.conceptId = id) =
      [(newQuestion id now).phrasing] := by
    rcases List.mem_cons.1 hid with rfl | hid
    · rfl
    · obtain rfl := List.mem_singleton.1 hid
      rfl
  have hps : ReviewStore.phrasingsOf (twoQuestions now) id =
      .ok [(newQuestion id now).phrasing] := by
    show Except.ok (List.mergeSort ((twoQuestions now).phrasings.filter (·.conceptId = id)) _) = _
    rw [hfilter, List.mergeSort_singleton]
  have hrecent : ReviewStore.recent (twoQuestions now) id historyLimit = .ok [] := by
    show Except.ok (List.take historyLimit (List.mergeSort [] _)) = _
    simp
  exact candidateFor?_newQuestion e now hps hrecent

/-- Of two questions the first one is asked, unless it is put off and the other one is not. -/
theorem nextCandidate_twoQuestions (e : Engine) (now : Instant) (putOff : List String) :
    nextCandidate e (twoQuestions now) now putOff =
      .ok (.found (newQuestion (if "a" ∈ putOff ∧ "b" ∉ putOff then "b" else "a") now)) := by
  let a := (newQuestion "a" now).concept
  let b := (newQuestion "b" now).concept
  have hdue : ReviewStore.due (twoQuestions now) now none = .ok [a, b] :=
    congrArg Except.ok (due_twoQuestions now)
  have hsorted : e.sortByPriority now [a, b] = [a, b] :=
    List.mergeSort_of_pairwise (by simp [a, b, comparePriority_twoQuestions])
  have hfirst (id : String) (hid : id ∈ ["a", "b"]) (cs : List Concept) :
      firstCandidate e (twoQuestions now) now ((newQuestion id now).concept :: cs) =
        .ok (.found (newQuestion id now)) := by
    simp only [firstCandidate, candidateFor?_twoQuestions e now hid, bind, Except.bind]
    rfl
  have horder : ∃ cs, askingOrder e now putOff [a, b] =
      (newQuestion (if "a" ∈ putOff ∧ "b" ∉ putOff then "b" else "a") now).concept :: cs := by
    have ha : a.id = "a" := rfl
    have hb : b.id = "b" := rfl
    by_cases hputA : "a" ∈ putOff <;> by_cases hputB : "b" ∈ putOff <;>
      simp [askingOrder, hsorted, ha, hb, hputA, hputB, a, b]
  obtain ⟨cs, horder⟩ := horder
  simp only [nextCandidate, hdue, horder, Except.mapError, bind, Except.bind]
  exact hfirst _ (by split <;> simp) cs

theorem holds_twoQuestions (h : now.IsMicro) :
    DatabaseStore.representation.Holds (twoQuestions now).tables (twoQuestions now) :=
  ⟨rfl, kept_twoQuestions h, distinct_twoQuestions now⟩

/-- A database with the two questions asks the same. -/
theorem nextCandidate_twoQuestions_tables (e : Engine) (h : now.IsMicro) (putOff : List String) :
    nextCandidate e (twoQuestions now).tables now putOff =
      .ok (.found (newQuestion (if "a" ∈ putOff ∧ "b" ∉ putOff then "b" else "a") now)) :=
  (DatabaseStore.representation.nextCandidate (holds_twoQuestions h) h.1 _ _).trans
    (nextCandidate_twoQuestions e now putOff)

theorem isCandidate_twoQuestions {id : String} (hid : id ∈ ["a", "b"]) :
    (twoQuestions now).IsCandidate now (newQuestion id now).concept := by
  refine ⟨?_, isDue_newQuestion id now, (newQuestion id now).phrasing, ?_, rfl, rfl, rfl⟩
  · rcases List.mem_cons.1 hid with rfl | hid
    · exact List.mem_cons_self
    · obtain rfl := List.mem_singleton.1 hid
      exact List.mem_cons_of_mem _ List.mem_cons_self
  · rcases List.mem_cons.1 hid with rfl | hid
    · exact List.mem_cons_self
    · obtain rfl := List.mem_singleton.1 hid
      exact List.mem_cons_of_mem _ List.mem_cons_self

/-- Of two questions the one that is not put off is asked. -/
theorem concept_of_answers_twoQuestions {σ : Type} [ReviewStore σ] {e : Engine} {store : σ}
    (h : (twoQuestions now).Answers e store now ["a"]) :
    ∃ f, nextCandidate e store now ["a"] = .ok (.found f) ∧ f.concept.id = "b" := by
  have hcandidate : (twoQuestions now).IsCandidate now (newQuestion "b" now).concept :=
    isCandidate_twoQuestions (by simp)
  obtain ⟨answer, hanswer, hright⟩ := h.next
  match answer with
  | .pending => exact hright.elim
  | .empty => exact absurd hcandidate (hright _)
  | .found f =>
    refine ⟨f, hanswer, ?_⟩
    have hf : f.concept.id = "a" ∨ f.concept.id = "b" := by
      have hmem := hright.1.1
      simp only [twoQuestions, addQuestion, empty, List.nil_append, List.cons_append,
        List.mem_cons, List.not_mem_nil, or_false] at hmem
      rcases hmem with hmem | hmem
      · exact .inl (by rw [hmem]; rfl)
      · exact .inr (by rw [hmem]; rfl)
    -- The first question is put off and the second one is not, so it cannot be the first one.
    rcases hf with hf | hf
    · have hput := h.putOff f hanswer (by simp [hf]) _ hcandidate
      simp [newQuestion, Concept.create] at hput
    · exact hf

end VolatileStore

theorem answers_twoQuestions :
    (∃ f, nextCandidate Parameters.standard.engine (VolatileStore.twoQuestions .epoch) .epoch
      ["a"] = .ok (.found f) ∧ f.concept.id = "b") ∧
    ∃ f, nextCandidate Parameters.standard.engine (VolatileStore.twoQuestions .epoch).tables .epoch
      ["a"] = .ok (.found f) ∧ f.concept.id = "b" := by
  have hmicro : Instant.epoch.IsMicro := by decide
  obtain ⟨hvolatile, hdatabase⟩ :=
    answers_of_distinct_of_filled Parameters.standard.engine .epoch ["a"]
  refine ⟨VolatileStore.concept_of_answers_twoQuestions
    (hvolatile _ (VolatileStore.distinct_twoQuestions .epoch)), ?_⟩
  obtain ⟨s, hs, hanswers⟩ := hdatabase _ (VolatileStore.filled_twoQuestions hmicro) hmicro.1
  rw [DatabaseStore.contents_tables (VolatileStore.kept_twoQuestions hmicro), Except.ok.injEq] at hs
  subst hs
  exact VolatileStore.concept_of_answers_twoQuestions hanswers

/-- Of two questions that are both put off the first one is asked, although the other one could be
    asked as well. -/
theorem found_of_all_put_off :
    let s := VolatileStore.twoQuestions .epoch
    let putOff := ["a", "b"]
    let f := VolatileStore.newQuestion "a" .epoch
    let g := VolatileStore.newQuestion "b" .epoch
    nextCandidate Parameters.standard.engine s .epoch putOff = .ok (.found f) ∧
      nextCandidate Parameters.standard.engine s.tables .epoch putOff = .ok (.found f) ∧
      f.concept.id ∈ putOff ∧ s.IsCandidate .epoch g.concept ∧ g.concept ≠ f.concept := by
  intro s putOff f g
  have hmicro : Instant.epoch.IsMicro := by decide
  have hne : g.concept ≠ f.concept := fun heq => by
    have hid : "b" = "a" := congrArg Concept.id heq
    exact absurd hid (by decide)
  exact ⟨VolatileStore.nextCandidate_twoQuestions _ .epoch putOff,
    VolatileStore.nextCandidate_twoQuestions_tables _ hmicro putOff, List.mem_cons_self,
    VolatileStore.isCandidate_twoQuestions (by simp), hne⟩

end SpacedReview
