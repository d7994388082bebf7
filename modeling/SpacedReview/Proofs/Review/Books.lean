import Mathlib.Algebra.BigOperators.Group.List.Basic
import Mathlib.Algebra.GroupWithZero.Nat
import SpacedReview.Proofs.Review.Planning
import SpacedReview.Proofs.Store.Changes

/-!
# The books of a store

An answer is written three times: into the memory of its concept, into the counter of its phrasing
and into the log. The first two are written as they were computed from an earlier look-up. A store
keeps books if both account for the log; every entry into the books keeps them.

## Main definitions

- `MemoryState.Accounts`, `Phrasing.Accounts` — a record accounts for some interactions
- `VolatileStore.Books` — every record accounts for the interactions with it
- `VolatileStore.Entry` — one entry into the books
- `VolatileStore.InStep` — what the books say as long as no counter has reached its end

## Main statements

- `VolatileStore.Books.entry` — every entry keeps the books
- `VolatileStore.Books.inStep` — records and log are in step
-/

namespace SpacedReview

/-! ## Accounts -/

/-- The memory counts some interactions, and it remembers when the last one was. Where the counter
    has come back to zero, nothing is said of the lapses. -/
structure MemoryState.Accounts (m : MemoryState) (is : List Interaction) : Prop where
  reps : m.reps = UInt32.ofNat is.length
  lapses : is.length < UInt32.size → m.lapses.toNat ≤ is.length - 1
  isNew : m.state = .new ↔ is = []
  lastReview : m.lastReview = is.getLast?.map Interaction.attemptedAt

/-- The phrasing counts some interactions up to the end of its counter, and it remembers when the
    last one was. Without any, it has no last attempt if it was inserted without one. -/
structure Phrasing.Accounts (blank : Prop) (p : Phrasing) (is : List Interaction) : Prop where
  attemptCount : p.attemptCount.toNat = min is.length 4294967295
  lastAttemptedAt : is ≠ [] ∨ blank → p.lastAttemptedAt = is.getLast?.map Interaction.attemptedAt

/-- The memory counts one answer more than another one. -/
structure MemoryState.Follows (m' m : MemoryState) (now : Instant) : Prop where
  reps : m'.reps = m.reps + 1
  lapses : m'.lapses = m.lapses ∨ m.state = .review ∧ m'.lapses = m.lapses + 1
  state : m'.state ≠ .new
  lastReview : m'.lastReview = some now

theorem MemoryState.accounts_fresh (now : Instant) : (fresh now).Accounts [] where
  reps := rfl
  lapses _ := Nat.le_refl 0
  isNew := iff_of_true rfl rfl
  lastReview := rfl

theorem MemoryState.Accounts.concat {m m' : MemoryState} {is : List Interaction}
    (h : m.Accounts is) {i : Interaction} (hm : m'.Follows m i.attemptedAt) :
    m'.Accounts (is ++ [i]) where
  reps := by
    rw [hm.reps, h.reps, List.length_append, List.length_singleton, UInt32.ofNat_add]
    rfl
  lapses := by
    intro hlength
    rw [List.length_append, List.length_singleton] at hlength ⊢
    have hle := h.lapses (by omega)
    rcases hm.lapses with hlapses | ⟨hreview, hlapses⟩
    · rw [hlapses]
      omega
    · -- What is forgotten in review was answered before.
      have hpos : 0 < is.length := by
        refine List.length_pos_iff.2 fun hnil => ?_
        rw [h.isNew.2 hnil] at hreview
        cases hreview
      rw [hlapses, UInt32.toNat_add]
      have hmod := Nat.mod_le (m.lapses.toNat + (1 : UInt32).toNat) (2 ^ 32)
      have hone : (1 : UInt32).toNat = 1 := rfl
      omega
  isNew := iff_of_false hm.state (by simp)
  lastReview := by
    rw [hm.lastReview, List.getLast?_concat]
    rfl

theorem toNat_countUp (n : UInt32) : (countUp n).toNat = min (n.toNat + 1) 4294967295 := by
  have hlt := n.toNat_lt
  unfold countUp
  split
  · rename_i hn
    rw [hn]
    rfl
  · rename_i hn
    have hne : n.toNat ≠ 4294967295 := fun h => hn (UInt32.toNat_inj.1 h)
    rw [UInt32.toNat_add, UInt32.toNat_one, Nat.mod_eq_of_lt (by omega)]
    omega

theorem Phrasing.Accounts.concat {blank : Prop} {p p' : Phrasing} {is : List Interaction}
    (h : p.Accounts blank is) {i : Interaction} (hcount : p'.attemptCount = countUp p.attemptCount)
    (hlast : p'.lastAttemptedAt = some i.attemptedAt) : p'.Accounts blank (is ++ [i]) where
  attemptCount := by
    have hprev := h.attemptCount
    rw [hcount, toNat_countUp, List.length_append, List.length_singleton]
    omega
  lastAttemptedAt _ := by
    rw [hlast, List.getLast?_concat]
    rfl

/-! ## Answers -/

theorem Parameters.transition_ne_new (p : Parameters) (state : LearningState) (rating : Rating)
    (stability : Float) : (p.transition state rating stability).1 ≠ .new := by
  have hshort {next : LearningState} {delay : Nat}
      (h : p.shortStep? state rating = some (next, delay)) : next ≠ .new := by
    unfold shortStep? at h
    split at h
    all_goals first
      | cases h
      | obtain ⟨_, -, heq⟩ := Option.map_eq_some_iff.1 h
        cases heq
        simp
  unfold transition
  cases h : p.shortStep? state rating with
  | none => simp
  | some step => exact hshort h

theorem Parameters.follows_of_update {p : Parameters} {m m' : MemoryState} {rating : Rating}
    {now : Instant} (h : p.update m rating now = .ok m') : m'.Follows m now := by
  obtain ⟨due, -, rfl⟩ := update_eq_ok.1 h
  refine ⟨rfl, ?_, p.transition_ne_new m.state rating _, rfl⟩
  by_cases hforgot : m.state = .review ∧ rating = .again
  · exact .inr ⟨hforgot.1, if_pos hforgot⟩
  · exact .inl (if_neg hforgot)

theorem MemoryState.Follows.kept {m m' : MemoryState} {now : Instant} (h : m'.Follows m now) :
    m'.kept.Follows m now.cut where
  reps := h.reps
  lapses := h.lapses
  state := h.state
  lastReview := by
    show m'.lastReview.map Instant.cut = _
    rw [h.lastReview]
    rfl

/-- What is written is an answer to a phrasing of a concept, and counts on from both. -/
structure ReviewPatch.Answers (q : ReviewPatch) (c : Concept) (p : Phrasing) : Prop where
  belongs : p.conceptId = c.id
  conceptId : q.conceptId = c.id
  phrasingId : q.phrasingId = p.id
  memory : q.memory.Follows c.memory q.interaction.attemptedAt
  attemptCount : q.attemptCount = countUp p.attemptCount
  lastAttemptedAt : q.lastAttemptedAt = q.interaction.attemptedAt
  to_concept : q.interaction.conceptId = c.id
  to_phrasing : q.interaction.phrasingId = p.id

theorem ReviewPatch.Answers.kept {q : ReviewPatch} {c : Concept} {p : Phrasing}
    (h : q.Answers c p) : q.kept.Answers c p :=
  { h with
    memory := h.memory.kept
    lastAttemptedAt := congrArg Instant.cut h.lastAttemptedAt }

/-- What a plan writes is an answer, and it is about the interaction of the request. -/
theorem answers_of_planReview {p : Parameters} {r : SubmitRequest} {now : Instant} {id : String}
    {c : Concept} {q : Phrasing} {patch : ReviewPatch} {outcome : SubmitOutcome}
    (hc : c.id = r.conceptId) (hq : q.id = r.phrasingId)
    (h : planReview p.engine r now id c q = .ok (patch, outcome)) :
    patch.Answers c q ∧ patch.interaction = r.interaction now id ∧ patch.lastAttemptedAt = now ∧
      patch.memory.nextReview = outcome.nextReview := by
  obtain ⟨hbelongs, -, result, hresult, rfl, rfl⟩ := (planReview_eq_ok hc hq).1 h
  obtain ⟨m, hm, rfl⟩ := Engine.schedule_eq_ok.1 hresult
  exact ⟨⟨hbelongs.trans hc.symm, hc.symm, hq.symm, Parameters.follows_of_update hm, rfl, rfl,
    hc.symm, hq.symm⟩, rfl, rfl, rfl⟩

/-- Of some records with different keys, one has a key or none has. -/
theorem Keyed.sum_map_ite {α : Type} {key : α → String} {xs : List α} (h : (xs.map key).Nodup)
    (id : String) :
    (xs.map fun x => if id = key x then 1 else 0).sum = if has key xs id then 1 else 0 := by
  induction xs with
  | nil => rfl
  | cons x xs ih =>
    obtain ⟨hx, hxs⟩ := List.nodup_cons.1 h
    rw [List.map_cons, List.sum_cons, ih hxs]
    by_cases hid : id = key x
    · have hrest : ¬ has key xs id := fun hhas => by
        obtain ⟨y, hy, hyid⟩ := (has_iff key).1 hhas
        exact hx (List.mem_map.2 ⟨y, hy, hyid.trans hid⟩)
      rw [if_pos hid, if_neg hrest, if_pos ((has_iff key).2 ⟨x, List.mem_cons_self, hid.symm⟩)]
    · have hhas : has key (x :: xs) id = has key xs id := by simp [has, Ne.symm hid]
      rw [if_neg hid, hhas, Nat.zero_add]

namespace VolatileStore

variable {blank : Prop} {s s' : VolatileStore}

/-! ## Books -/

/-- The interactions with a concept, oldest first. -/
def interactionsWith (s : VolatileStore) (conceptId : String) : List Interaction :=
  s.log.filter (·.conceptId = conceptId)

/-- The interactions with a phrasing, oldest first. -/
def attemptsAt (s : VolatileStore) (phrasingId : String) : List Interaction :=
  s.log.filter (·.phrasingId = phrasingId)

/-- Every record accounts for the interactions with it. If `blank` holds, then every phrasing was
    inserted without a last attempt. -/
structure Books (blank : Prop) (s : VolatileStore) : Prop where
  distinct : s.Distinct
  belongs : ∀ p ∈ s.phrasings, Keyed.has Concept.id s.concepts p.conceptId
  refers : ∀ i ∈ s.log, ∃ p ∈ s.phrasings, p.id = i.phrasingId ∧ p.conceptId = i.conceptId
  concepts : ∀ c ∈ s.concepts, c.memory.Accounts (s.interactionsWith c.id)
  phrasings : ∀ p ∈ s.phrasings, p.Accounts blank (s.attemptsAt p.id)

theorem books_empty (blank : Prop) : empty.Books blank where
  distinct := distinct_empty
  belongs _ hp := nomatch hp
  refers _ hi := nomatch hi
  concepts _ hc := nomatch hc
  phrasings _ hp := nomatch hp

/-- One entry into the books: a new concept, a new phrasing, a change of either that leaves alone
    what is counted, or an answer. -/
inductive Entry (blank : Prop) (s : VolatileStore) : VolatileStore → Prop where
  | concept {c : Concept} {now : Instant} : ¬ Keyed.has Concept.id s.concepts c.id →
      c.memory = .fresh now → Entry blank s { s with concepts := s.concepts ++ [c] }
  | phrasing {p : Phrasing} : ¬ Keyed.has Phrasing.id s.phrasings p.id →
      Keyed.has Concept.id s.concepts p.conceptId → p.attemptCount = 0 →
      (blank → p.lastAttemptedAt = none) →
      Entry blank s { s with phrasings := s.phrasings ++ [p] }
  | pointed (id : String) {f : Concept → Concept} :
      (∀ c, (f c).id = c.id ∧ (f c).memory = c.memory) →
      Entry blank s { s with concepts := Keyed.change Concept.id s.concepts id f }
  | archived (id : String) {f : Phrasing → Phrasing} :
      (∀ p, (f p).id = p.id ∧ (f p).conceptId = p.conceptId ∧
        (f p).attemptCount = p.attemptCount ∧ (f p).lastAttemptedAt = p.lastAttemptedAt) →
      Entry blank s { s with phrasings := Keyed.change Phrasing.id s.phrasings id f }
  | answer {c : Concept} {p : Phrasing} {q : ReviewPatch} : c ∈ s.concepts → p ∈ s.phrasings →
      q.Answers c p → Entry blank s (s.recorded q)

theorem Books.interactionsWith_eq_nil (h : s.Books blank) {id : String}
    (hid : ¬ Keyed.has Concept.id s.concepts id) : s.interactionsWith id = [] := by
  refine List.filter_eq_nil_iff.2 fun i hi heq => ?_
  obtain ⟨p, hp, -, hbelongs⟩ := h.refers i hi
  have hhas := h.belongs p hp
  rw [hbelongs, of_decide_eq_true heq] at hhas
  exact hid hhas

theorem Books.attemptsAt_eq_nil (h : s.Books blank) {id : String}
    (hid : ¬ Keyed.has Phrasing.id s.phrasings id) : s.attemptsAt id = [] := by
  refine List.filter_eq_nil_iff.2 fun i hi heq => ?_
  obtain ⟨p, hp, hrefers, -⟩ := h.refers i hi
  exact hid ((Keyed.has_iff _).2 ⟨p, hp, hrefers.trans (of_decide_eq_true heq)⟩)

theorem interactionsWith_recorded (s : VolatileStore) (q : ReviewPatch) (id : String) :
    (s.recorded q).interactionsWith id = s.interactionsWith id ++
      if q.interaction.conceptId = id then [q.interaction] else [] := by
  rw [interactionsWith, recorded, List.filter_append, interactionsWith]
  by_cases h : q.interaction.conceptId = id <;> simp [h]

theorem attemptsAt_recorded (s : VolatileStore) (q : ReviewPatch) (id : String) :
    (s.recorded q).attemptsAt id = s.attemptsAt id ++
      if q.interaction.phrasingId = id then [q.interaction] else [] := by
  rw [attemptsAt, recorded, List.filter_append, attemptsAt]
  by_cases h : q.interaction.phrasingId = id <;> simp [h]

/-! ## Entries -/

theorem Books.entry_concept (h : s.Books blank) {c : Concept} {now : Instant}
    (hnew : ¬ Keyed.has Concept.id s.concepts c.id) (hc : c.memory = .fresh now) :
    Books blank { s with concepts := s.concepts ++ [c] } where
  distinct := by
    have hd := h.distinct.insertConcept c
    rw [insertConcept, Keyed.put_of_not_has _ hnew] at hd
    exact hd
  belongs p hp := by
    obtain ⟨d, hd, hid⟩ := (Keyed.has_iff _).1 (h.belongs p hp)
    exact (Keyed.has_iff _).2 ⟨d, List.mem_append_left _ hd, hid⟩
  refers := h.refers
  concepts := List.forall_mem_append.2 ⟨h.concepts, List.forall_mem_singleton.2 <| by
    show c.memory.Accounts (s.interactionsWith c.id)
    rw [h.interactionsWith_eq_nil hnew, hc]
    exact MemoryState.accounts_fresh now⟩
  phrasings := h.phrasings

theorem Books.entry_phrasing (h : s.Books blank) {p : Phrasing}
    (hnew : ¬ Keyed.has Phrasing.id s.phrasings p.id)
    (hconcept : Keyed.has Concept.id s.concepts p.conceptId) (hcount : p.attemptCount = 0)
    (hlast : blank → p.lastAttemptedAt = none) :
    Books blank { s with phrasings := s.phrasings ++ [p] } where
  distinct := by
    have hd := h.distinct.put_phrasing p
    rw [Keyed.put_of_not_has _ hnew] at hd
    exact hd
  belongs := List.forall_mem_append.2 ⟨h.belongs, List.forall_mem_singleton.2 hconcept⟩
  refers i hi := by
    obtain ⟨q, hq, hrefers⟩ := h.refers i hi
    exact ⟨q, List.mem_append_left _ hq, hrefers⟩
  concepts := h.concepts
  phrasings := List.forall_mem_append.2 ⟨h.phrasings, List.forall_mem_singleton.2 <| by
    show p.Accounts blank (s.attemptsAt p.id)
    rw [h.attemptsAt_eq_nil hnew]
    exact ⟨by rw [hcount]; rfl, fun hblank => hlast (hblank.resolve_left fun hne => hne rfl)⟩⟩

theorem Books.entry_pointed (h : s.Books blank) (id : String) {f : Concept → Concept}
    (hf : ∀ c, (f c).id = c.id ∧ (f c).memory = c.memory) :
    Books blank { s with concepts := Keyed.change Concept.id s.concepts id f } where
  distinct := h.distinct.change_concepts id fun c hc => (hf c).1.trans hc
  belongs p hp := by
    rw [Keyed.has_change _ fun c hc => (hf c).1.trans hc]
    exact h.belongs p hp
  refers := h.refers
  concepts := Keyed.forall_mem_change _ h.concepts fun c hc => by
    rw [(hf c).1, (hf c).2]
    exact hc
  phrasings := h.phrasings

theorem Books.entry_archived (h : s.Books blank) (id : String) {f : Phrasing → Phrasing}
    (hf : ∀ p, (f p).id = p.id ∧ (f p).conceptId = p.conceptId ∧
      (f p).attemptCount = p.attemptCount ∧ (f p).lastAttemptedAt = p.lastAttemptedAt) :
    Books blank { s with phrasings := Keyed.change Phrasing.id s.phrasings id f } where
  distinct := h.distinct.change_phrasings id fun p hp => (hf p).1.trans hp
  belongs := Keyed.forall_mem_change _ h.belongs fun p hp => by
    rw [(hf p).2.1]
    exact hp
  refers i hi := by
    obtain ⟨p, hp, hrefers⟩ := h.refers i hi
    refine ⟨_, List.mem_map_of_mem hp, ?_⟩
    split
    · rw [(hf p).1, (hf p).2.1]
      exact hrefers
    · exact hrefers
  concepts := h.concepts
  phrasings := Keyed.forall_mem_change _ h.phrasings fun p hp => by
    rw [(hf p).1]
    exact ⟨(hf p).2.2.1 ▸ hp.attemptCount, (hf p).2.2.2 ▸ hp.lastAttemptedAt⟩

theorem Books.entry_answer (h : s.Books blank) {c : Concept} {p : Phrasing} {q : ReviewPatch}
    (hc : c ∈ s.concepts) (hp : p ∈ s.phrasings) (hq : q.Answers c p) :
    (s.recorded q).Books blank where
  distinct := h.distinct.recorded q
  belongs := Keyed.forall_mem_change _ (fun r hr => by
    rw [recorded, Keyed.has_change Concept.id fun _ => q.onConcept_id]
    exact h.belongs r hr) fun _ hr => hr
  refers := by
    have hkeeps (i : Interaction) (hi : ∃ p ∈ s.phrasings, p.id = i.phrasingId ∧
        p.conceptId = i.conceptId) : ∃ p ∈ (s.recorded q).phrasings, p.id = i.phrasingId ∧
          p.conceptId = i.conceptId := by
      obtain ⟨p, hp, hrefers⟩ := hi
      refine ⟨_, List.mem_map_of_mem hp, ?_⟩
      split
      · exact hrefers
      · exact hrefers
    refine List.forall_mem_append.2 ⟨fun i hi => hkeeps i (h.refers i hi),
      List.forall_mem_singleton.2 (hkeeps _ ⟨p, hp, hq.to_phrasing.symm, ?_⟩)⟩
    rw [hq.to_concept, hq.belongs]
  concepts y hy := by
    obtain ⟨d, hd, rfl⟩ := List.mem_map.1 hy
    have haccounts := h.concepts d hd
    rw [interactionsWith_recorded, hq.to_concept]
    split
    · rename_i hid
      -- The memory was computed from the very concept whose memory it replaces.
      obtain rfl : d = c := List.inj_on_of_nodup_map h.distinct.concepts hd hc
        (hid.trans hq.conceptId)
      show q.memory.Accounts (s.interactionsWith d.id ++ if d.id = d.id then _ else _)
      rw [if_pos rfl]
      exact haccounts.concat hq.memory
    · rename_i hid
      rw [if_neg fun heq => hid (heq.symm.trans hq.conceptId.symm), List.append_nil]
      exact haccounts
  phrasings y hy := by
    obtain ⟨r, hr, rfl⟩ := List.mem_map.1 hy
    have haccounts := h.phrasings r hr
    rw [attemptsAt_recorded, hq.to_phrasing]
    split
    · rename_i hid
      obtain rfl : r = p := List.inj_on_of_nodup_map h.distinct.phrasings hr hp
        (hid.trans hq.phrasingId)
      show (q.onPhrasing r).Accounts blank (s.attemptsAt r.id ++ if r.id = r.id then _ else _)
      rw [if_pos rfl]
      exact haccounts.concat hq.attemptCount (congrArg some hq.lastAttemptedAt)
    · rename_i hid
      rw [if_neg fun heq => hid (heq.symm.trans hq.phrasingId.symm), List.append_nil]
      exact haccounts

theorem Books.entry (h : s.Books blank) (he : s.Entry blank s') : s'.Books blank := by
  cases he with
  | concept hnew hc => exact h.entry_concept hnew hc
  | phrasing hnew hconcept hcount hlast => exact h.entry_phrasing hnew hconcept hcount hlast
  | pointed id hf => exact h.entry_pointed id hf
  | archived id hf => exact h.entry_archived id hf
  | answer hc hp hq => exact h.entry_answer hc hp hq

/-! ## What the books say -/

/-- The records and the log are in step. -/
structure InStep (blank : Prop) (s : VolatileStore) : Prop where
  attemptCount : ∀ p ∈ s.phrasings, p.attemptCount.toNat = (s.attemptsAt p.id).length
  reps : ∀ c ∈ s.concepts, c.memory.reps.toNat = (s.interactionsWith c.id).length
  reps_eq_sum : ∀ c ∈ s.concepts, c.memory.reps.toNat =
    ((s.phrasings.filter (·.conceptId = c.id)).map (·.attemptCount.toNat)).sum
  lapses : ∀ c ∈ s.concepts, 0 < c.memory.reps →
    c.memory.lapses.toNat ≤ c.memory.reps.toNat - 1
  isNew : ∀ c ∈ s.concepts, c.memory.state = .new ↔ c.memory.reps = 0
  lastReview : ∀ c ∈ s.concepts,
    c.memory.lastReview = (s.interactionsWith c.id).getLast?.map Interaction.attemptedAt
  lastAttemptedAt : ∀ p ∈ s.phrasings, s.attemptsAt p.id ≠ [] ∨ blank →
    p.lastAttemptedAt = (s.attemptsAt p.id).getLast?.map Interaction.attemptedAt

theorem Books.conceptId_eq (h : s.Books blank) {p : Phrasing} (hp : p ∈ s.phrasings)
    {i : Interaction} (hi : i ∈ s.log) (hid : i.phrasingId = p.id) :
    i.conceptId = p.conceptId := by
  obtain ⟨q, hq, hrefers, hbelongs⟩ := h.refers i hi
  obtain rfl : q = p :=
    List.inj_on_of_nodup_map h.distinct.phrasings hq hp (hrefers.trans hid)
  exact hbelongs.symm

theorem Books.length_attemptsAt_le (h : s.Books blank) {p : Phrasing} (hp : p ∈ s.phrasings) :
    (s.attemptsAt p.id).length ≤ (s.interactionsWith p.conceptId).length := by
  rw [attemptsAt, interactionsWith, ← List.countP_eq_length_filter,
    ← List.countP_eq_length_filter]
  refine List.countP_mono_left fun i hi hid => ?_
  exact decide_eq_true (h.conceptId_eq hp hi (of_decide_eq_true hid))

/-- The interactions with a concept are those with its phrasings. -/
theorem Books.sum_length_attemptsAt (h : s.Books blank) (id : String) :
    ((s.phrasings.filter (·.conceptId = id)).map fun p => (s.attemptsAt p.id).length).sum =
      (s.interactionsWith id).length := by
  simp only [attemptsAt, interactionsWith, ← List.countP_eq_length_filter]
  have hrefers := h.refers
  generalize s.log = log at hrefers
  -- Each interaction is counted at one phrasing, and that one belongs to its concept.
  induction log with
  | nil => simp
  | cons i log ih =>
    have hone : ((s.phrasings.filter (·.conceptId = id)).map fun p =>
        if i.phrasingId = p.id then 1 else 0).sum = if i.conceptId = id then 1 else 0 := by
      have hnodup : ((s.phrasings.filter (·.conceptId = id)).map Phrasing.id).Nodup :=
        h.distinct.phrasings.sublist (List.filter_sublist.map _)
      rw [Keyed.sum_map_ite hnodup]
      refine if_congr ?_ rfl rfl
      obtain ⟨q, hq, hid, hbelongs⟩ := hrefers i List.mem_cons_self
      simp only [Keyed.has_iff, List.mem_filter, decide_eq_true_eq]
      constructor
      · rintro ⟨p, ⟨hp, rfl⟩, hpid⟩
        obtain rfl : q = p :=
          List.inj_on_of_nodup_map h.distinct.phrasings hq hp (hid.trans hpid.symm)
        exact hbelongs.symm
      · exact fun heq => ⟨q, ⟨hq, hbelongs.trans heq⟩, hid⟩
    simp only [List.countP_cons, decide_eq_true_eq, List.sum_map_add, hone,
      ih fun j hj => hrefers j (List.mem_cons_of_mem i hj)]

/-- Records and log are in step as long as no counter of answers has come back to zero. -/
theorem Books.inStep (h : s.Books blank)
    (hcount : ∀ id, (s.interactionsWith id).length < UInt32.size) : s.InStep blank := by
  have hattempts : ∀ p ∈ s.phrasings,
      p.attemptCount.toNat = (s.attemptsAt p.id).length := by
    intro p hp
    -- A phrasing is attempted no more often than its concept is answered.
    have hle := h.length_attemptsAt_le hp
    have hlt := hcount p.conceptId
    rw [(h.phrasings p hp).attemptCount]
    simp only [UInt32.size] at hlt
    omega
  have hreps : ∀ c ∈ s.concepts,
      c.memory.reps.toNat = (s.interactionsWith c.id).length := by
    intro c hc
    rw [(h.concepts c hc).reps, UInt32.toNat_ofNat_of_lt' (hcount c.id)]
  have hzero : ∀ c ∈ s.concepts, c.memory.reps = 0 ↔ s.interactionsWith c.id = [] := by
    intro c hc
    rw [← UInt32.toNat_inj, hreps c hc]
    exact List.length_eq_zero_iff
  refine ⟨hattempts, hreps, fun c hc => ?_, fun c hc _ => ?_, fun c hc => ?_,
    fun c hc => (h.concepts c hc).lastReview, fun p hp => (h.phrasings p hp).lastAttemptedAt⟩
  · rw [hreps c hc, ← h.sum_length_attemptsAt c.id]
    congr 1
    exact List.map_congr_left fun p hp => (hattempts p (List.mem_of_mem_filter hp)).symm
  · rw [hreps c hc]
    exact (h.concepts c hc).lapses (hcount c.id)
  · rw [hzero c hc]
    exact (h.concepts c hc).isNew

/-! ## The overview -/

theorem length_due (s : VolatileStore) (now : Instant) :
    (s.due now none).length = s.concepts.countP (·.isDue now) := by
  rw [due, cutTo, List.length_mergeSort, List.countP_eq_length_filter]

theorem sum_countState (s : VolatileStore) :
    s.countState .new + s.countState .learning + s.countState .review + s.countState .relearning =
      UInt64.ofNat s.concepts.length := by
  simp only [countState, ← UInt64.ofNat_add]
  congr 1
  induction s.concepts with
  | nil => rfl
  | cons c cs ih =>
    simp only [List.countP_cons, List.length_cons, ← ih]
    cases c.memory.state <;> simp <;> omega

end VolatileStore

end SpacedReview
