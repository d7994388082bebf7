import SpacedReview.Proofs.Retention.Delays
import SpacedReview.Proofs.Review.NextQuestion

/-!
# Going through the queue

A learner who answers every question at one instant is asked about each due concept once, in the
order of priority, and then about none, whatever the replies are. An answer puts its concept off
beyond that instant and leaves all other concepts where they are.

## Main definitions

- `Reply`, `goThrough` — the replies of a learner, and the rounds in which they are given
- `Unhindered` — next reviews are in range and the database takes what is written
- `VolatileStore.IsQueue` — the concepts to ask, in order

## Main statements

- `drains_of_unhindered` — the rounds in both stores
-/

namespace SpacedReview

/-! ## Rounds -/

/-- What a learner replies to a question, and the identifier under which the reply is recorded. -/
structure Reply where
  answer : String
  isCorrect : Bool
  elapsedMs : UInt64
  sessionId : Option String
  interactionId : String

/-- The reply to a question as a request. -/
def Reply.request (r : Reply) (f : FoundCandidate) : SubmitRequest :=
  { conceptId := f.concept.id, phrasingId := f.phrasing.id, answer := r.answer,
    isCorrect := r.isCorrect, elapsedMs := r.elapsedMs, sessionId := r.sessionId }

section Rounds

variable {σ : Type} [ReviewStore σ]

/-- Asks and takes the next reply until there is nothing to ask or no reply is left. The result is
    each question with what came of its reply, and the store in the end. -/
def goThrough (e : Engine) (now : Instant) (store : σ) :
    List Reply → List (FoundCandidate × Except SubmitError SubmitOutcome) × σ
  | [] => ([], store)
  | r :: rs =>
    match nextCandidate e store now [] with
    | .ok (.found f) =>
      let (next, result) := submit e store (r.request f) now r.interactionId
      let (rounds, final) := goThrough e now next rs
      ((f, result) :: rounds, final)
    | _ => ([], store)

/-- A reply is not refused for other reasons than the contents of the store: its next review is in
    range and among the given times, and the database has no error of its own when it is written. -/
structure Reply.Unhindered (time : Instant → Prop) (e : Engine) (now : Instant) (store : σ)
    (f : FoundCandidate) (r : Reply) : Prop where
  inRange : ∀ err, e.schedule f.concept r.isCorrect now ≠ .error err
  nextReview : ∀ result, e.schedule f.concept r.isCorrect now = .ok result → time result.nextReview
  written : ∀ patch outcome err,
    planReview e (r.request f) now r.interactionId f.concept f.phrasing = .ok (patch, outcome) →
    ReviewStore.record store patch = .error err → ¬ err.IsDatabase

/-- No reply is refused for such reasons when its turn comes. -/
def Unhindered (time : Instant → Prop) (e : Engine) (now : Instant) (store : σ) :
    List Reply → Prop
  | [] => True
  | r :: rs => ∀ f, nextCandidate e store now [] = .ok (.found f) →
    r.Unhindered time e now store f ∧
      Unhindered time e now (submit e store (r.request f) now r.interactionId).1 rs

/-- Every question is about the next concept of the list and its reply is taken, and after the last
    one there is nothing to ask. -/
structure Drains (e : Engine) (now : Instant) (store : σ) (replies : List Reply)
    (cs : List Concept) : Prop where
  asked : (goThrough e now store replies).1.map (·.1.concept) = cs.take replies.length
  taken : ∀ round ∈ (goThrough e now store replies).1, ∃ outcome, round.2 = .ok outcome
  ended : cs.length ≤ replies.length →
    nextCandidate e (goThrough e now store replies).2 now [] = .ok .empty

end Rounds

/-- An engine by which every answer puts the next review off by a second at least. -/
structure Engine.PutsOff (e : Engine) : Prop where
  second_lt : ∀ {m m' rating now}, e.update m rating now = .ok m' →
    now.second < m'.nextReview.second
  lastReview : ∀ {m m' rating now}, e.update m rating now = .ok m' → m'.lastReview = some now

theorem Parameters.putsOff_engine {p : Parameters} (h : p.StepsTakeTime) : p.engine.PutsOff where
  second_lt := second_lt_of_update h
  lastReview hm := by
    obtain ⟨due, -, rfl⟩ := update_eq_ok.1 hm
    rfl

namespace VolatileStore

variable {s : VolatileStore} {e : Engine} {now : Instant} {c : Concept} {cs : List Concept}

/-- All concepts that can be asked, in the order of priority. -/
structure IsQueue (s : VolatileStore) (e : Engine) (now : Instant) (cs : List Concept) : Prop where
  mem_iff : ∀ c, c ∈ cs ↔ s.IsCandidate now c
  sorted : cs.Pairwise fun c d => e.comparePriority now c d = .lt

theorem exists_isQueue (h : s.Distinct) (e : Engine) (now : Instant) :
    ∃ cs, s.IsQueue e now cs := by
  classical
  refine ⟨(e.sortByPriority now (s.due now none)).filter fun c => ∃ p, s.Shows c p, ?_, ?_⟩
  · intro c
    rw [List.mem_filter, (e.sortByPriority_perm now _).mem_iff, mem_due, decide_eq_true_iff,
      and_assoc]
    rfl
  · exact (e.pairwise_sortByPriority now (nodup_due h)).filter _

theorem IsQueue.nodup (h : s.IsQueue e now cs) : cs.Nodup := by
  refine h.sorted.imp fun {c d} hlt => ?_
  rintro rfl
  have hself : e.comparePriority now c c = .eq := Std.ReflCmp.compare_self
  rw [hself] at hlt
  simp at hlt

/-- There is one queue only. -/
theorem IsQueue.unique {ds : List Concept} (h : s.IsQueue e now cs) (h' : s.IsQueue e now ds) :
    cs = ds := by
  have hperm : cs.Perm ds := (List.perm_ext_iff_of_nodup h.nodup h'.nodup).2 fun c =>
    (h.mem_iff c).trans (h'.mem_iff c).symm
  refine hperm.eq_of_pairwise (fun c d _ _ hcd hdc => ?_) h.sorted h'.sorted
  rw [Std.OrientedCmp.gt_iff_lt.2 hcd] at hdc
  simp at hdc

/-! ## One round -/

/-- The first concept of the queue is asked. -/
theorem IsQueue.concept_eq (h : s.IsQueue e now (c :: cs)) {f : FoundCandidate}
    (hf : s.IsAnswer e now [] (.found f)) : f.concept = c := by
  by_cases heq : f.concept = c
  · exact heq
  · obtain ⟨hcandidate, hfirst, -⟩ := hf
    have hmem : f.concept ∈ cs := by
      rcases List.mem_cons.1 ((h.mem_iff _).2 hcandidate) with hmem | hmem
      · exact absurd hmem heq
      · exact hmem
    -- Then each of the two would come before the other one.
    have hlt : e.comparePriority now c f.concept = .lt := (List.pairwise_cons.1 h.sorted).1 _ hmem
    have hgt : e.comparePriority now f.concept c = .lt := by
      rcases hfirst c ((h.mem_iff c).1 List.mem_cons_self) (Ne.symm heq) with ⟨-, hput⟩ | ⟨-, hlt⟩
      · simp at hput
      · exact hlt
    rw [Std.OrientedCmp.gt_iff_lt.2 hlt] at hgt
    simp at hgt

theorem IsQueue.exists_found (h : s.IsQueue e now (c :: cs)) {answer : ReviewCandidate}
    (hanswer : s.IsAnswer e now [] answer) : ∃ f, answer = .found f ∧ f.concept = c := by
  match answer with
  | .pending => exact hanswer.elim
  | .empty => exact absurd ((h.mem_iff c).1 List.mem_cons_self) (hanswer c)
  | .found f => exact ⟨f, rfl, h.concept_eq hanswer⟩

theorem IsQueue.eq_empty (h : s.IsQueue e now []) {answer : ReviewCandidate}
    (hanswer : s.IsAnswer e now [] answer) : answer = .empty := by
  match answer with
  | .pending => exact hanswer.elim
  | .empty => rfl
  | .found f => simpa using (h.mem_iff f.concept).2 hanswer.1

theorem exists_shows_recorded (s : VolatileStore) (q : ReviewPatch) (d : Concept) :
    (∃ p, (s.recorded q).Shows d p) ↔ ∃ p, s.Shows d p := by
  constructor
  · rintro ⟨p, hp, hid, hretired⟩
    obtain ⟨p', hp', rfl⟩ := List.mem_map.1 hp
    refine ⟨p', hp', ?_⟩
    split at hid
    · rw [if_pos ‹_›] at hretired
      exact ⟨hid, hretired⟩
    · rw [if_neg ‹_›] at hretired
      exact ⟨hid, hretired⟩
  · rintro ⟨p, hp, hid, hretired⟩
    refine ⟨_, List.mem_map_of_mem hp, ?_⟩
    split
    · exact ⟨hid, hretired⟩
    · exact ⟨hid, hretired⟩

/-- An answer that puts a concept off takes it, and nothing else, from the queue. -/
theorem isCandidate_recorded (h : s.Distinct) (hc : c ∈ s.concepts) {q : ReviewPatch}
    (hq : q.conceptId = c.id) (hlater : now.second < q.memory.nextReview.second) (d : Concept) :
    (s.recorded q).IsCandidate now d ↔ s.IsCandidate now d ∧ d ≠ c := by
  have hnotDue (x : Concept) : (q.onConcept x).isDue now = false := by
    refine decide_eq_false ?_
    show ¬ q.memory.nextReview ≤ now
    rw [Instant.le_iff]
    omega
  constructor
  · rintro ⟨hd, hdue, hshows⟩
    obtain ⟨x, hx, rfl⟩ := List.mem_map.1 hd
    -- The concept that was answered is not due any more, and no other concept has changed.
    by_cases hid : x.id = q.conceptId
    · rw [if_pos hid, hnotDue] at hdue
      simp at hdue
    · rw [if_neg hid] at hdue hshows ⊢
      refine ⟨⟨hx, hdue, (exists_shows_recorded s q x).1 hshows⟩, ?_⟩
      rintro rfl
      exact hid hq.symm
  · rintro ⟨⟨hd, hdue, hshows⟩, hne⟩
    refine ⟨List.mem_map.2 ⟨d, hd, if_neg ?_⟩, hdue, (exists_shows_recorded s q d).2 hshows⟩
    rw [hq]
    intro hid
    exact hne (List.inj_on_of_nodup_map h.concepts hd hc hid)

theorem IsQueue.recorded (h : s.IsQueue e now (c :: cs)) (hdistinct : s.Distinct) {q : ReviewPatch}
    (hq : q.conceptId = c.id) (hlater : now.second < q.memory.nextReview.second) :
    (s.recorded q).IsQueue e now cs := by
  have hc := (h.mem_iff c).1 List.mem_cons_self
  have hnot : c ∉ cs := (List.nodup_cons.1 h.nodup).1
  refine ⟨fun d => ?_, (List.pairwise_cons.1 h.sorted).2⟩
  rw [isCandidate_recorded hdistinct hc.1 hq hlater, ← h.mem_iff, List.mem_cons]
  constructor
  · intro hd
    refine ⟨.inr hd, ?_⟩
    rintro rfl
    exact hnot hd
  · rintro ⟨hd | hd, hne⟩
    · exact absurd hd hne
    · exact hd

/-- The reply to a question is taken, and only its concept is put off. -/
theorem exists_recorded_of_submit {σ : Type} [ReviewStore σ] {h : Representation σ} {store : σ}
    (hs : h.Holds store s) (he : e.PutsOff) (hnow : h.Legible now) {f : FoundCandidate}
    (hc : f.concept ∈ s.concepts) (hp : s.Shows f.concept f.phrasing) {r : Reply}
    (hr : r.Unhindered h.Legible e now store f) :
    ∃ next outcome q, submit e store (r.request f) now r.interactionId = (next, .ok outcome) ∧
      q.conceptId = f.concept.id ∧ now.second < q.memory.nextReview.second ∧
      h.Holds next (s.recorded q) := by
  have hdistinct := h.distinct hs
  obtain ⟨hmem, hbelongs, hshown⟩ := hp
  -- Identifiers are used once, so the look-ups find the very records of the question.
  have hconcept : ReviewStore.concept? store f.concept.id = .ok (some f.concept) := by
    rw [h.concept? hs]
    exact congrArg Except.ok (Keyed.find?_of_mem hdistinct.concepts hc)
  have hphrasing : ReviewStore.phrasing? store f.phrasing.id = .ok (some f.phrasing) := by
    rw [h.phrasing? hs]
    exact congrArg Except.ok (Keyed.find?_of_mem hdistinct.phrasings hmem)
  cases hresult : e.schedule f.concept r.isCorrect now with
  | error err => exact absurd hresult (hr.inRange err)
  | ok result =>
    obtain ⟨m, hm, rfl⟩ := Engine.schedule_eq_ok.1 hresult
    obtain ⟨patch, outcome, hplan, hpatch⟩ : ∃ patch outcome,
        planReview e (r.request f) now r.interactionId f.concept f.phrasing =
          .ok (patch, outcome) ∧
        ReviewPatch.mk f.concept.id m f.phrasing.id (countUp f.phrasing.attemptCount) now
          ((r.request f).interaction now r.interactionId) = patch :=
      ⟨_, _, (planReview_eq_ok rfl rfl).2 ⟨hbelongs, hshown, _, hresult, rfl, rfl⟩, rfl⟩
    cases hrecord : ReviewStore.record store patch with
    | error err =>
      have hdatabase : err.IsDatabase := by
        refine h.record_error hs ?_ ?_ hrecord
        · rw [← hpatch]
          exact (Keyed.has_iff _).2 ⟨_, hc, rfl⟩
        · rw [← hpatch]
          exact (Keyed.has_iff _).2 ⟨_, hmem, rfl⟩
      exact absurd hdatabase (hr.written patch outcome err hplan hrecord)
    | ok next =>
      have hwithin : patch.Within h.Legible (fun _ => True) := by
        rw [← hpatch]
        refine ⟨⟨trivial, trivial, fun t ht => ?_, hr.nextReview _ hresult⟩, hnow, hnow⟩
        have ht : m.lastReview = some t := ht
        rw [he.lastReview hm, Option.some.injEq] at ht
        rw [← ht]
        exact hnow
      -- What the store keeps of the answer is about the same concept and puts it off as far.
      obtain ⟨q, hq, hholds⟩ := h.record hs hwithin hrecord
      refine ⟨next, outcome, q, ?_, ?_, ?_, hholds⟩
      · simp only [submit, Reply.request, hconcept, hphrasing] at hplan ⊢
        rw [hplan]
        simp only [hrecord]
      · rw [hq.conceptId, ← hpatch]
      · rw [hq.nextReview, ← hpatch]
        exact he.second_lt hm

/-! ## All rounds -/

theorem drains_of_isQueue {σ : Type} [ReviewStore σ] {h : Representation σ} (he : e.PutsOff)
    (hnow : h.Legible now) {store : σ} {replies : List Reply} (hs : h.Holds store s)
    (hqueue : s.IsQueue e now cs) (hreplies : Unhindered h.Legible e now store replies) :
    Drains e now store replies cs := by
  -- Each reply takes the first concept from the queue, so store and queue change along with them.
  induction replies generalizing store s cs with
  | nil =>
    refine ⟨rfl, by simp [goThrough], fun hlength => ?_⟩
    obtain rfl : cs = [] := List.length_eq_zero_iff.1 (by simpa using hlength)
    obtain ⟨answer, hanswer, hright⟩ := exists_isAnswer (h.distinct hs) e now []
    rw [← h.nextCandidate hs hnow, hqueue.eq_empty hright] at hanswer
    exact hanswer
  | cons r replies ih =>
    obtain ⟨answer, hanswer, hright⟩ := exists_isAnswer (h.distinct hs) e now []
    rw [← h.nextCandidate hs hnow] at hanswer
    cases cs with
    | nil =>
      rw [hqueue.eq_empty hright] at hanswer
      have hrounds : goThrough e now store (r :: replies) = ([], store) := by
        simp only [goThrough, hanswer]
      refine ⟨by simp [hrounds], by simp [hrounds], fun _ => ?_⟩
      rw [hrounds]
      exact hanswer
    | cons c cs =>
      obtain ⟨f, rfl, rfl⟩ := hqueue.exists_found hright
      obtain ⟨hr, hrest⟩ := hreplies f hanswer
      obtain ⟨next, outcome, q, hsubmit, hq, hlater, hnext⟩ :=
        exists_recorded_of_submit hs he hnow hright.1.1 hright.2.2.1.shows hr
      rw [hsubmit] at hrest
      have hdrains := ih hnext (hqueue.recorded (h.distinct hs) hq hlater) hrest
      have hrounds : goThrough e now store (r :: replies) =
          ((f, .ok outcome) :: (goThrough e now next replies).1,
            (goThrough e now next replies).2) := by
        simp only [goThrough, hanswer, hsubmit]
      refine ⟨?_, ?_, fun hlength => ?_⟩
      · rw [hrounds, List.map_cons, hdrains.asked, List.length_cons, List.take_succ_cons]
      · rw [hrounds, List.forall_mem_cons]
        exact ⟨⟨outcome, rfl⟩, hdrains.taken⟩
      · rw [hrounds]
        exact hdrains.ended (by simpa using hlength)

end VolatileStore

/-- A learner whose replies are not hindered is asked about every concept of the queue, in the order
    of priority and once, and then about none. This holds of every volatile store, and of every
    database that was filled by its own changes, if all times are in the years 0 to 9999. The steps
    of the standard parameters are long enough. -/
theorem drains_of_unhindered (now : Instant) (replies : List Reply) :
    (Parameters.standard.StepsTakeTime ∧
      ∀ retention, (Parameters.withRetention retention).StepsTakeTime) ∧
    ∀ p : Parameters, p.StepsTakeTime →
      (∀ s : VolatileStore, s.Distinct → Unhindered (fun _ => True) p.engine now s replies →
        ∃ cs, s.IsQueue p.engine now cs ∧ Drains p.engine now s replies cs) ∧
      ∀ db : DatabaseStore, db.Filled → now.HasPlainYear →
        Unhindered Instant.HasPlainYear p.engine now db replies →
        ∃ s, db.contents = .ok s ∧
          ∃ cs, s.IsQueue p.engine now cs ∧ Drains p.engine now db replies cs := by
  refine ⟨⟨Parameters.stepsTakeTime_withRetention _, Parameters.stepsTakeTime_withRetention⟩,
    fun p hp => ⟨fun s hs hreplies => ?_, fun db hdb hnow hreplies => ?_⟩⟩
  · obtain ⟨cs, hcs⟩ := VolatileStore.exists_isQueue hs p.engine now
    exact ⟨cs, hcs, VolatileStore.drains_of_isQueue (h := VolatileStore.representation)
      (p.putsOff_engine hp) trivial ⟨rfl, hs⟩ hcs hreplies⟩
  · obtain ⟨s, hkept, hdistinct, rfl⟩ := hdb.exists_tables
    obtain ⟨cs, hcs⟩ := VolatileStore.exists_isQueue hdistinct p.engine now
    exact ⟨s, DatabaseStore.contents_tables hkept, cs, hcs,
      VolatileStore.drains_of_isQueue (h := DatabaseStore.representation)
        (p.putsOff_engine hp) hnow ⟨rfl, hkept, hdistinct⟩ hcs hreplies⟩

/-! ## Replies that nothing hinders -/

namespace VolatileStore

theorem not_isDatabase_of_record {s : VolatileStore} {p : ReviewPatch} {err : StoreError}
    (h : s.record p = .error err) : ¬ err.IsDatabase := by
  rintro ⟨reason, rfl⟩
  unfold record at h
  split at h
  · simp at h
  · split at h
    · simp at h
    · simp at h

/-- Replies to a volatile store are not hindered as long as the last hundred years have not
    begun. -/
theorem unhindered {p : Parameters}
    (hsteps : ∀ minutes ∈ p.learningSteps ++ p.relearningSteps, minutes ≤ 1440)
    (hinterval : p.maximumInterval ≤ 36500) {now : Instant}
    (hnow : now.second + 3153600000 ≤ Instant.lastSecond) (s : VolatileStore)
    (replies : List Reply) : Unhindered (fun _ => True) p.engine now s replies := by
  induction replies generalizing s with
  | nil => trivial
  | cons r replies ih =>
    intro f _
    refine ⟨⟨fun err herr => ?_, fun _ _ => trivial, fun _ _ _ _ hrecord =>
      not_isDatabase_of_record hrecord⟩, ih _⟩
    obtain ⟨m, hm⟩ := Parameters.exists_update hsteps hinterval hnow f.concept.memory
      (.ofCorrect r.isCorrect)
    have hok := (Engine.schedule_eq_ok (e := p.engine)).2 ⟨m, hm, rfl⟩
    rw [hok] at herr
    simp at herr

/-- Where nothing is to be asked, there is no reply to hinder. -/
theorem unhindered_of_isQueue_nil {σ : Type} [ReviewStore σ] {h : Representation σ} {store : σ}
    {s : VolatileStore} (hs : h.Holds store s) {e : Engine} {now : Instant} (hnow : h.Legible now)
    (hqueue : s.IsQueue e now []) (time : Instant → Prop) (replies : List Reply) :
    Unhindered time e now store replies := by
  cases replies with
  | nil => trivial
  | cons r replies =>
    intro f hfound
    obtain ⟨answer, hanswer, hright⟩ := exists_isAnswer (h.distinct hs) e now []
    rw [← h.nextCandidate hs hnow, hqueue.eq_empty hright, hfound] at hanswer
    simp at hanswer

theorem isQueue_twoQuestions (e : Engine) (now : Instant) :
    (twoQuestions now).IsQueue e now
      [(newQuestion "a" now).concept, (newQuestion "b" now).concept] := by
  refine ⟨fun c => ⟨fun hc => ?_, fun hc => hc.1⟩, ?_⟩
  · rcases List.mem_cons.1 hc with rfl | hc
    · exact isCandidate_twoQuestions (by simp)
    · obtain rfl := List.mem_singleton.1 hc
      exact isCandidate_twoQuestions (by simp)
  · simpa using comparePriority_twoQuestions e now

theorem isQueue_twoQuestions_of_lt (e : Engine) {now later : Instant} (h : now < later) :
    (twoQuestions later).IsQueue e now [] := by
  refine ⟨fun c => ?_, .nil⟩
  simp only [IsCandidate, twoQuestions, addQuestion, empty, List.nil_append, List.cons_append,
    List.mem_cons, List.not_mem_nil, or_false, false_iff, not_and]
  have hnotDue (id : String) : ¬ (Concept.create id "title" (.fresh later) later).isDue now := by
    intro hdue
    exact h.2 (of_decide_eq_true hdue)
  rintro (rfl | rfl) hdue
  · exact absurd hdue (hnotDue "a")
  · exact absurd hdue (hnotDue "b")

end VolatileStore

/-- A reply without a text that counts as right or as wrong. -/
def Reply.sample (correct : Bool) : Reply :=
  { answer := "", isCorrect := correct, elapsedMs := 0, sessionId := none, interactionId := "" }

/-- Two due questions are asked one after the other, and two that are due a second later are not
    asked. In the database nothing is due, because no reply to it can be shown to be taken: every
    difficulty depends on `Float.exp`, which has no value in proofs, and what is not a number is not
    written. -/
theorem drains_twoQuestions :
    Drains Parameters.standard.engine .epoch (VolatileStore.twoQuestions .epoch)
      [.sample true, .sample false]
      [(VolatileStore.newQuestion "a" .epoch).concept,
        (VolatileStore.newQuestion "b" .epoch).concept] ∧
    Drains Parameters.standard.engine .epoch
      (VolatileStore.twoQuestions ⟨1, 0, by decide, by decide, by decide, by decide⟩).tables
      [.sample true, .sample false] [] := by
  let later : Instant := ⟨1, 0, by decide, by decide, by decide, by decide⟩
  have hlater : Instant.epoch < later := by decide
  have hmicro : later.IsMicro := by decide
  have hepoch : Instant.epoch.HasPlainYear := by decide
  obtain ⟨⟨hsteps, -⟩, hdrains⟩ :=
    drains_of_unhindered .epoch [.sample true, .sample false]
  obtain ⟨hvolatile, hdatabase⟩ := hdrains Parameters.standard hsteps
  refine ⟨?_, ?_⟩
  · have hreplies : Unhindered (fun _ => True) Parameters.standard.engine .epoch
        (VolatileStore.twoQuestions .epoch) [.sample true, .sample false] :=
      VolatileStore.unhindered (by simp [Parameters.standard]) (UInt32.le_refl _) (by decide) _ _
    obtain ⟨cs, hcs, hdrained⟩ :=
      hvolatile _ (VolatileStore.distinct_twoQuestions .epoch) hreplies
    rw [hcs.unique (VolatileStore.isQueue_twoQuestions _ _)] at hdrained
    exact hdrained
  · -- Nothing is due yet in the database, so that there is no reply to be hindered.
    have hholds := VolatileStore.holds_twoQuestions hmicro
    have hempty := VolatileStore.isQueue_twoQuestions_of_lt Parameters.standard.engine hlater
    have hreplies := VolatileStore.unhindered_of_isQueue_nil hholds hepoch hempty
      Instant.HasPlainYear [.sample true, .sample false]
    obtain ⟨s, hs, cs, hcs, hdrained⟩ :=
      hdatabase _ (VolatileStore.filled_twoQuestions hmicro) hepoch hreplies
    rw [DatabaseStore.contents_tables (VolatileStore.kept_twoQuestions hmicro),
      Except.ok.injEq] at hs
    subst hs
    rw [hcs.unique hempty] at hdrained
    exact hdrained

end SpacedReview
