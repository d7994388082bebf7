import SpacedReview.Proofs.Review.Books
import SpacedReview.Proofs.Review.NextQuestion
import SpacedReview.Proofs.Review.Tally
import SpacedReview.Proofs.Store.Atomicity

/-!
# The outcome of a submission

A submission that fails leaves its store as it was, wherever it fails. One that is taken was about a
phrasing of the concept that is not retired; it replaces the memory of the concept by the scheduled
one, counts one attempt at the phrasing, logs one interaction, and reports what is then stored. A
database keeps of this what its columns can hold: times are cut to the microsecond.

## Main definitions

- `Gradable` — what an answer needs in order to be taken
- `OutcomeStored` — the records after an answer, and the report
- `AllOrNothing` — how a submission ends

## Main statements

- `submit_eq_ok_iff_gradable` — when a submission is taken
- `allOrNothing_of_submit` — how a submission leaves both stores
-/

namespace SpacedReview

/-- What is written of an answer to a phrasing that was scheduled. -/
def SubmitRequest.patch (r : SubmitRequest) (now : Instant) (id : String) (p : Phrasing)
    (result : ScheduleResult) : ReviewPatch :=
  { conceptId := r.conceptId, memory := result.memory, phrasingId := r.phrasingId,
    attemptCount := countUp p.attemptCount, lastAttemptedAt := now,
    interaction := r.interaction now id }

section Submit

variable {σ : Type} [ReviewStore σ]

/-- The answer can be taken: its concept and its phrasing are there, the phrasing belongs to the
    concept and was neither archived nor deleted, and the next review can be dated. -/
structure Gradable (e : Engine) (store : σ) (r : SubmitRequest) (now : Instant) (c : Concept)
    (p : Phrasing) (result : ScheduleResult) : Prop where
  concept : ReviewStore.concept? store r.conceptId = .ok (some c)
  phrasing : ReviewStore.phrasing? store r.phrasingId = .ok (some p)
  belongs : p.conceptId = r.conceptId
  archivedAt : p.archivedAt = none
  deletedAt : p.deletedAt = none
  scheduled : e.schedule c r.isCorrect now = .ok result

/-- The store `next` shows the concept with the scheduled memory and the phrasing with one attempt
    more, up to what a store keeps of times and memories, and otherwise the records of `store`. The
    outcome reports the next review and the learning state that are shown, and the whole days until
    then. -/
structure OutcomeStored (keepTime : Instant → Instant) (keepMemory : MemoryState → MemoryState)
    (r : SubmitRequest) (now : Instant) (id : String) (c : Concept) (p : Phrasing)
    (result : ScheduleResult) (outcome : SubmitOutcome) (store next : σ) : Prop where
  concept : ReviewStore.concept? next r.conceptId =
    .ok (some { c with memory := keepMemory result.memory, updatedAt := keepTime now })
  concept_other : ∀ other, other ≠ r.conceptId →
    ReviewStore.concept? next other = ReviewStore.concept? store other
  phrasing : ReviewStore.phrasing? next r.phrasingId =
    .ok (some { p with attemptCount := countUp p.attemptCount,
                       lastAttemptedAt := some (keepTime now) })
  phrasing_other : ∀ other, other ≠ r.phrasingId →
    ReviewStore.phrasing? next other = ReviewStore.phrasing? store other
  recent_other : ∀ other, other ≠ r.phrasingId → ∀ limit,
    ReviewStore.recent next other limit = ReviewStore.recent store other limit
  attempts : (countUp p.attemptCount).toNat = min (p.attemptCount.toNat + 1) 4294967295
  nextReview : (keepMemory result.memory).nextReview = keepTime outcome.nextReview
  newState : (keepMemory result.memory).state = outcome.newState
  scheduledDays : outcome.scheduledDays.toNat =
    ((outcome.nextReview.since now).tdiv 86400000000000).toNat
  interactionId : outcome.interactionId = id

variable {e : Engine} {store next : σ} {r : SubmitRequest} {now : Instant} {id : String}
  {c : Concept} {p : Phrasing} {result : ScheduleResult} {outcome : SubmitOutcome}

/-! ## When a submission is taken -/

theorem Gradable.plan [Tally σ] (h : Gradable e store r now c p result) :
    planReview e r now id c p = .ok (r.patch now id p result,
      ⟨result.nextReview, result.scheduledDays, result.lifecycleState, id⟩) := by
  exact (planReview_eq_ok (Tally.of_concept? h.concept).1 (Tally.of_phrasing? h.phrasing).1).2
    ⟨h.belongs, ⟨h.archivedAt, h.deletedAt⟩, result, h.scheduled, rfl, rfl⟩

/-- A submission is taken if the answer can be taken and what it writes is recorded. -/
theorem submit_eq_ok_iff_gradable [Tally σ] :
    submit e store r now id = (next, .ok outcome) ↔
      ∃ c p result, Gradable e store r now c p result ∧
        ReviewStore.record store (r.patch now id p result) = .ok next ∧
        ⟨result.nextReview, result.scheduledDays, result.lifecycleState, id⟩ = outcome := by
  rw [submit_eq_ok]
  constructor
  · rintro ⟨c, p, patch, hc, hp, hplan, hrecord⟩
    obtain ⟨hbelongs, ⟨harchived, hdeleted⟩, result, hresult, rfl, houtcome⟩ := (planReview_eq_ok
      (Tally.of_concept? hc).1 (Tally.of_phrasing? hp).1).1 hplan
    exact ⟨c, p, result, ⟨hc, hp, hbelongs, harchived, hdeleted, hresult⟩, hrecord, houtcome⟩
  · rintro ⟨c, p, result, h, hrecord, rfl⟩
    exact ⟨c, p, r.patch now id p result, h.concept, h.phrasing, h.plan, hrecord⟩

/-! ## What it reports -/

theorem Gradable.scheduledDays (h : Gradable e store r now c p result) :
    result.scheduledDays.toNat =
      ((result.nextReview.since now).tdiv 86400000000000).toNat := by
  obtain ⟨m, -, rfl⟩ := Engine.schedule_eq_ok.1 h.scheduled
  exact UInt32.toNat_ofNat_of_lt' (Instant.days_since_lt m.nextReview now)

/-- A store that shows an answer and is otherwise as it was stores the outcome, if what it shows is
    what it keeps of the scheduled memory and of the time of the answer. -/
theorem Gradable.outcomeStored {keepTime : Instant → Instant}
    {keepMemory : MemoryState → MemoryState} {q : ReviewPatch}
    (h : Gradable e store r now c p result) (hshows : ShowsOnly q store next)
    (hconceptId : q.conceptId = r.conceptId) (hphrasingId : q.phrasingId = r.phrasingId)
    (hlog : q.interaction.phrasingId = r.phrasingId)
    (hconcept : q.onConcept c =
      { c with memory := keepMemory result.memory, updatedAt := keepTime now })
    (hphrasing : q.onPhrasing p =
      { p with attemptCount := countUp p.attemptCount, lastAttemptedAt := some (keepTime now) })
    (hnext : ∀ m, (keepMemory m).nextReview = keepTime m.nextReview)
    (hstate : ∀ m, (keepMemory m).state = m.state) :
    OutcomeStored keepTime keepMemory r now id c p result
      ⟨result.nextReview, result.scheduledDays, result.lifecycleState, id⟩ store next := by
  have hdays := h.scheduledDays
  obtain ⟨m, -, hresult⟩ := Engine.schedule_eq_ok.1 h.scheduled
  have hshown := hshows.concept c (by rw [hconceptId, h.concept])
  have hcounted := hshows.phrasing p (by rw [hphrasingId, h.phrasing])
  rw [hconceptId, hconcept] at hshown
  rw [hphrasingId, hphrasing] at hcounted
  refine ⟨hshown, ?_, hcounted, ?_, ?_, toNat_countUp _, ?_, ?_, hdays, rfl⟩
  · intro other hother
    exact hshows.concept_other other (by rwa [hconceptId])
  · intro other hother
    exact hshows.phrasing_other other (by rwa [hphrasingId])
  · intro other hother
    exact hshows.recent_other other (by rwa [hlog])
  · rw [hnext, ← hresult]
  · rw [hstate, ← hresult]

/-! ## How a submission ends -/

/-- A submission that fails leaves the store as it was, and one that is taken stores what it
    reports. -/
structure AllOrNothing (e : Engine) (r : SubmitRequest) (now : Instant) (id : String) (store : σ)
    (Stored : Concept → Phrasing → ScheduleResult → SubmitOutcome → σ → Prop) : Prop where
  refused : ∀ err next, submit e store r now id = (next, .error err) → next = store
  taken : ∀ outcome next, submit e store r now id = (next, .ok outcome) →
    ∃ c p result, Gradable e store r now c p result ∧ Stored c p result outcome next

end Submit

/-- Of every submission to a store nothing or all is written. To a volatile store it is taken if and
    only if the answer can be taken, and what is stored is what was scheduled. A database stores
    what it keeps of it, as long as the times that are written lie in the years 0 to 9999. -/
theorem allOrNothing_of_submit (e : Engine) (r : SubmitRequest) (now : Instant) (id : String) :
    (∀ s : VolatileStore,
      AllOrNothing e r now id s (fun c p result outcome next =>
        OutcomeStored (fun t => t) (fun m => m) r now id c p result outcome s next ∧
          next.log = s.log ++ [r.interaction now id]) ∧
      ((∃ outcome, (submit e s r now id).2 = .ok outcome) ↔
        ∃ c p result, Gradable e s r now c p result)) ∧
    ∀ db : DatabaseStore,
      AllOrNothing e r now id db fun c p result outcome next =>
        ((r.patch now id p result).Within Instant.HasPlainYear (fun _ => True) →
          OutcomeStored Instant.cut MemoryState.kept r now id c p result outcome db next) ∧
        next.interactions = db.interactions ++ [InteractionTable.row (r.interaction now id)] ∧
        (now.HasPlainYear → InteractionTable.read (InteractionTable.row (r.interaction now id)) =
          .ok (r.interaction now id).kept) := by
  constructor
  · intro s
    refine ⟨⟨fun err next => eq_of_submit_error, ?_⟩, ?_⟩
    · intro outcome next hsubmit
      obtain ⟨c, p, result, h, hrecord, rfl⟩ := submit_eq_ok_iff_gradable.1 hsubmit
      have hrecorded := VolatileStore.answerRecorded_of_record hrecord
      refine ⟨c, p, result, h, ?_, hrecorded.log⟩
      exact h.outcomeStored hrecorded.shows rfl rfl rfl rfl rfl (fun _ => rfl) (fun _ => rfl)
    · constructor
      · rintro ⟨outcome, houtcome⟩
        obtain ⟨c, p, result, h, -⟩ := submit_eq_ok_iff_gradable.1 (Prod.ext rfl houtcome)
        exact ⟨c, p, result, h⟩
      · rintro ⟨c, p, result, h⟩
        have hconcept : Keyed.has Concept.id s.concepts r.conceptId := by
          rw [Keyed.has_eq_isSome_find?, Except.ok.inj h.concept]
          rfl
        have hphrasing : Keyed.has Phrasing.id s.phrasings r.phrasingId := by
          rw [Keyed.has_eq_isSome_find?, Except.ok.inj h.phrasing]
          rfl
        have hrecord := VolatileStore.record_eq_ok.2
          ⟨hconcept, hphrasing, Eq.refl (s.recorded (r.patch now id p result))⟩
        exact ⟨_, congrArg Prod.snd (submit_eq_ok_iff_gradable.2 ⟨c, p, result, h, hrecord, rfl⟩)⟩
  · intro db
    refine ⟨fun err next => eq_of_submit_error, ?_⟩
    intro outcome next hsubmit
    obtain ⟨c, p, result, h, hrecord, rfl⟩ := submit_eq_ok_iff_gradable.1 hsubmit
    have hrecorded := DatabaseStore.answerRecorded_of_record hrecord
    refine ⟨c, p, result, h, ?_, hrecorded.interactions, hrecorded.read_interaction⟩
    intro hwithin
    exact h.outcomeStored (hrecorded.shows hwithin) rfl rfl rfl rfl rfl (fun _ => rfl)
      (fun _ => rfl)

/-! ## One question -/

/-- An engine that asks every question again a day later. -/
def Engine.daily : Engine where
  start := .fresh
  update m _ now :=
    match now.after? Instant.secondsPerDay with
    | none => .error .dueDateOutOfRange
    | some due => .ok { m with
        state := .review, reps := m.reps + 1, lastReview := some now, nextReview := due }
  retrievability _ _ := 1.0

/-- A right answer to the phrasing of a concept that have one identifier. -/
def SubmitRequest.right (id : String) : SubmitRequest :=
  { conceptId := id, phrasingId := id, answer := "answer", isCorrect := true, elapsedMs := 0,
    sessionId := none }

/-- Both stores take the answer, and the database stores it to the microsecond. -/
theorem allOrNothing_of_right :
    let now : Instant := (Instant.of? 0 1).get rfl
    let s := VolatileStore.empty.addQuestion "a" .epoch
    (∃ c p result outcome next, submit .daily s (.right "a") now "i" = (next, .ok outcome) ∧
      OutcomeStored (fun t => t) (fun m => m) (.right "a") now "i" c p result outcome s next) ∧
    ∃ c p result outcome next, submit .daily s.tables (.right "a") now "i" = (next, .ok outcome) ∧
      OutcomeStored Instant.cut MemoryState.kept (.right "a") now "i" c p result outcome s.tables
        next := by
  intro now s
  obtain ⟨hvolatile, hdatabase⟩ := allOrNothing_of_submit .daily (.right "a") now "i"
  have hs : (submit .daily s (.right "a") now "i").2.toOption.isSome := by decide +kernel
  have hdb : (submit .daily s.tables (.right "a") now "i").2.toOption.isSome := by decide +kernel
  constructor
  · rcases hsubmit : submit .daily s (.right "a") now "i" with ⟨next, err | outcome⟩
    · rw [hsubmit] at hs
      cases hs
    · obtain ⟨c, p, result, -, hstored, -⟩ := (hvolatile s).1.taken outcome next hsubmit
      exact ⟨c, p, result, outcome, next, rfl, hstored⟩
  · rcases hsubmit : submit .daily s.tables (.right "a") now "i" with ⟨next, err | outcome⟩
    · rw [hsubmit] at hdb
      cases hdb
    · obtain ⟨c, p, result, h, hstored, -⟩ := (hdatabase s.tables).taken outcome next hsubmit
      refine ⟨c, p, result, outcome, next, rfl, hstored ?_⟩
      obtain ⟨m, hm, rfl⟩ := Engine.schedule_eq_ok.1 h.scheduled
      have hm : Except.ok { c.memory with
          state := .review, reps := c.memory.reps + 1, lastReview := some now,
          nextReview := (Instant.of? 86400 1).get rfl } = Except.ok m := hm
      obtain rfl := Except.ok.inj hm
      have hnow : now.HasPlainYear := by decide
      have hdue : ((Instant.of? 86400 1).get rfl).HasPlainYear := by decide
      refine ⟨⟨trivial, trivial, ?_, hdue⟩, hnow, hnow⟩
      intro t ht
      obtain rfl := Option.some.inj ht
      exact hnow

/-- The last attempt is not stored to the nanosecond. -/
theorem lastAttemptedAt_ne_of_nanosecond :
    let now : Instant := (Instant.of? 0 1).get rfl
    let db := (VolatileStore.empty.addQuestion "a" .epoch).tables
    ∃ next outcome p, submit .daily db (.right "a") now "i" = (next, .ok outcome) ∧
      ReviewStore.phrasing? next "a" = .ok (some p) ∧ p.lastAttemptedAt ≠ some now := by
  intro now db
  have hok : (submit .daily db (.right "a") now "i").2.toOption.isSome := by decide +kernel
  have hlast : (ReviewStore.phrasing? (submit .daily db (.right "a") now "i").1 "a").toOption.map
      (Option.map Phrasing.lastAttemptedAt) = some (some (some .epoch)) := by decide +kernel
  rcases hsubmit : submit .daily db (.right "a") now "i" with ⟨next, err | outcome⟩
  · rw [hsubmit] at hok
    cases hok
  · rw [hsubmit] at hlast
    rcases hp : ReviewStore.phrasing? next "a" with err | _ | p
    · simp [hp, Except.toOption] at hlast
    · simp [hp, Except.toOption] at hlast
    · refine ⟨next, outcome, p, rfl, hp, ?_⟩
      have hepoch : p.lastAttemptedAt = some .epoch := by
        simpa [hp, Except.toOption] using hlast
      rw [hepoch]
      decide

end SpacedReview
