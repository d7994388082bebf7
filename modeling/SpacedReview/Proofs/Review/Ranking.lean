import SpacedReview.Proofs.Review.NextQuestion
import SpacedReview.Proofs.Store.Restamping

/-!
# Ranking does not depend on enumeration

A store reports its concepts in the order in which it happens to keep them. Priority is a strict
total order on concepts with different identifiers, so the order in which they are asked is the same
for every permutation of what the store reports, and so is the concept that is asked next.

## Main definitions

- `Engine.IsTotalOrder` — the laws of the order by priority
- `Engine.RanksAlike` — two lists are ranked into the same order
- `EnumerateAlike` — two stores report the same records in any order

## Main statements

- `ranksAlike_of_enumeration` — ranking and the next candidate under every permutation
-/

namespace SpacedReview

/-! ## The order by priority -/

namespace Engine

variable {e : Engine} {now : Instant}

/-- The order by priority is a strict total order that tells concepts apart by their identifiers at
    the latest, and it puts concepts that were never reviewed before all others. -/
structure IsTotalOrder (e : Engine) (now : Instant) : Prop where
  refl : ∀ a, e.comparePriority now a a = .eq
  swap : ∀ a b, e.comparePriority now b a = (e.comparePriority now a b).swap
  trans : ∀ a b c, e.comparePriority now a b ≠ .gt → e.comparePriority now b c ≠ .gt →
    e.comparePriority now a c ≠ .gt
  id_eq : ∀ a b, e.comparePriority now a b = .eq → a.id = b.id
  newFirst : ∀ a b, a.isNew → ¬ b.isNew → e.comparePriority now a b = .lt

theorem isTotalOrder (e : Engine) (now : Instant) : e.IsTotalOrder now where
  refl _ := Std.ReflCmp.compare_self
  swap _ _ := Std.OrientedCmp.eq_swap
  trans _ _ _ hab hbc := by
    have hab := Ordering.isLE_iff_ne_gt.2 hab
    have hbc := Ordering.isLE_iff_ne_gt.2 hbc
    exact Ordering.isLE_iff_ne_gt.1 (Std.TransCmp.isLE_trans hab hbc)
  id_eq _ _ := id_eq_of_comparePriority
  newFirst a b ha hb := by
    simp [comparePriority, compareUrgency, ha, hb]

theorem sortByPriority_eq_of_perm {cs ds : List Concept} (hperm : cs.Perm ds)
    (h : (cs.map Concept.id).Nodup) : e.sortByPriority now cs = e.sortByPriority now ds := by
  refine mergeSort_eq_of_perm (e.comparePriority now) hperm ?_
  refine (List.pairwise_map.1 h).imp ?_
  intro a b hne heq
  exact hne (id_eq_of_comparePriority heq)

end Engine

variable {e : Engine} {now : Instant} {putOff : List String}

theorem askingOrder_eq_of_perm {cs ds : List Concept} (hperm : cs.Perm ds)
    (h : (cs.map Concept.id).Nodup) :
    askingOrder e now putOff cs = askingOrder e now putOff ds := by
  rw [askingOrder, askingOrder, Engine.sortByPriority_eq_of_perm hperm h]

/-- The concepts are asked in the order of a stable sort by whether they are put off. -/
theorem askingOrder_eq_mergeSort (e : Engine) (now : Instant) (putOff : List String)
    (cs : List Concept) : askingOrder e now putOff cs = (e.sortByPriority now cs).mergeSort
      fun a b => decide (a.id ∈ putOff) ≤ decide (b.id ∈ putOff) := by
  rw [mergeSort_by_key fun c : Concept => decide (c.id ∈ putOff), askingOrder]
  simp only [decide_not]

/-- Two lists of concepts are ranked into the same order by priority, which has the members of both,
    and asked in the same order: a stable sort of it by whether they are put off, in which those
    that are not put off and those that are keep their order. -/
structure Engine.RanksAlike (e : Engine) (now : Instant) (putOff : List String)
    (cs ds : List Concept) : Prop where
  sorted : e.sortByPriority now cs = e.sortByPriority now ds
  perm : (e.sortByPriority now cs).Perm cs
  pairwise : (e.sortByPriority now cs).Pairwise fun a b => e.comparePriority now a b = .lt
  asked : askingOrder e now putOff cs = askingOrder e now putOff ds
  split : askingOrder e now putOff cs = (e.sortByPriority now cs).mergeSort
    fun a b => decide (a.id ∈ putOff) ≤ decide (b.id ∈ putOff)
  side : ∀ late, (askingOrder e now putOff cs).filter (fun c => decide (c.id ∈ putOff) = late) =
    (e.sortByPriority now cs).filter fun c => decide (c.id ∈ putOff) = late
  putOffLast : (askingOrder e now putOff cs).Pairwise fun a b => a.id ∈ putOff → b.id ∈ putOff

theorem Engine.ranksAlike_of_perm {cs ds : List Concept} (hperm : cs.Perm ds)
    (h : (cs.map Concept.id).Nodup) : e.RanksAlike now putOff cs ds where
  sorted := sortByPriority_eq_of_perm hperm h
  perm := e.sortByPriority_perm now cs
  pairwise := e.pairwise_sortByPriority now h
  asked := askingOrder_eq_of_perm hperm h
  split := askingOrder_eq_mergeSort e now putOff cs
  side late := by
    rw [askingOrder, List.filter_append, List.filter_filter, List.filter_filter]
    cases late with
    | true => simp
    | false => simp
  putOffLast := by
    refine (pairwise_askingOrder h).imp ?_
    intro a b hab ha
    rcases hab with ⟨hnot, -⟩ | ⟨hiff, -⟩
    · exact absurd ha hnot
    · exact hiff.1 ha

/-! ## Stores that report the same records -/

/-- The concept that is asked about. -/
def ReviewCandidate.concept? : ReviewCandidate → Option Concept
  | found f => some f.concept
  | _ => none

/-- Two stores report the same due concepts, which have different identifiers, and the same
    phrasings of every concept, in any order, and can report the interactions with every
    phrasing. -/
structure EnumerateAlike {σ τ : Type} [ReviewStore σ] [ReviewStore τ] (store : σ) (other : τ)
    (now : Instant) : Prop where
  due : ∃ cs ds, ReviewStore.due store now none = .ok cs ∧ ReviewStore.due other now none = .ok ds ∧
    cs.Perm ds ∧ (cs.map Concept.id).Nodup
  phrasingsOf : ∀ id, ∃ ps qs, ReviewStore.phrasingsOf store id = .ok ps ∧
    ReviewStore.phrasingsOf other id = .ok qs ∧ ps.Perm qs
  recent : ∀ id, (∃ history, ReviewStore.recent store id historyLimit = .ok history) ∧
    ∃ history, ReviewStore.recent other id historyLimit = .ok history

section Stores

variable {σ τ : Type} [ReviewStore σ] [ReviewStore τ] {store : σ} {other : τ}

/-- Whether a concept makes a candidate depends on whether one of its phrasings can be shown. -/
theorem concept_of_candidateFor? (e : Engine) (now : Instant) {c : Concept} {ps : List Phrasing}
    (hphrasings : ReviewStore.phrasingsOf store c.id = .ok ps)
    (hrecent : ∀ id, ∃ history, ReviewStore.recent store id historyLimit = .ok history) :
    (candidateFor? e store now c).map (Option.map FoundCandidate.concept) =
      .ok (if (showable none ps).isEmpty then none else some c) := by
  have hchosen := chosen_selectPreferred c.canonicalPhrasing ps
  simp only [candidateFor?, hphrasings, Except.mapError, bind, Except.bind]
  cases hp : (selectPreferred c.canonicalPhrasing ps).phrasing? with
  | none =>
    rw [hp] at hchosen
    rw [hchosen.eq_nil]
    rfl
  | some p =>
    rw [hp] at hchosen
    have hne : showable none ps ≠ [] := List.ne_nil_of_mem hchosen.mem
    obtain ⟨history, hhistory⟩ := hrecent p.id
    simp only [hhistory, List.isEmpty_iff, hne, if_false]
    rfl

theorem concept_of_firstCandidate_cons {c : Concept} {ps : List Phrasing} (cs : List Concept)
    (hphrasings : ReviewStore.phrasingsOf store c.id = .ok ps)
    (hrecent : ∀ id, ∃ history, ReviewStore.recent store id historyLimit = .ok history) :
    (firstCandidate e store now (c :: cs)).map ReviewCandidate.concept? =
      if (showable none ps).isEmpty then
        (firstCandidate e store now cs).map ReviewCandidate.concept?
      else .ok (some c) := by
  have hconcept := concept_of_candidateFor? e now hphrasings hrecent
  rw [firstCandidate]
  cases hfound : candidateFor? e store now c with
  | error _ =>
    rw [hfound] at hconcept
    cases hconcept
  | ok found =>
    rw [hfound] at hconcept
    cases found with
    | none =>
      by_cases hempty : (showable none ps).isEmpty
      · rw [if_pos hempty]
        rfl
      · simp [hempty, Except.map] at hconcept
    | some f =>
      by_cases hempty : (showable none ps).isEmpty
      · simp [hempty, Except.map] at hconcept
      · simp only [hempty, Except.map, Option.map, Except.ok.injEq] at hconcept
        rw [if_neg hempty]
        exact congrArg Except.ok hconcept

theorem concept_of_firstCandidate (h : EnumerateAlike store other now) (e : Engine)
    (cs : List Concept) : (firstCandidate e store now cs).map ReviewCandidate.concept? =
      (firstCandidate e other now cs).map ReviewCandidate.concept? := by
  induction cs with
  | nil => rfl
  | cons c cs ih =>
    obtain ⟨ps, qs, hps, hqs, hperm⟩ := h.phrasingsOf c.id
    have hshowable : (showable none ps).isEmpty = (showable none qs).isEmpty :=
      (hperm.filter _).isEmpty_eq
    rw [concept_of_firstCandidate_cons cs hps fun id => (h.recent id).1,
      concept_of_firstCandidate_cons cs hqs fun id => (h.recent id).2, hshowable, ih]

/-- Two stores that report the same records in any order ask about the same concept. -/
theorem EnumerateAlike.concept (h : EnumerateAlike store other now) (e : Engine)
    (putOff : List String) :
    (nextCandidate e store now putOff).map ReviewCandidate.concept? =
      (nextCandidate e other now putOff).map ReviewCandidate.concept? := by
  obtain ⟨cs, ds, hcs, hds, hperm, hnodup⟩ := h.due
  have hstore : nextCandidate e store now putOff =
      firstCandidate e store now (askingOrder e now putOff cs) := by rw [nextCandidate, hcs]; rfl
  have hother : nextCandidate e other now putOff =
      firstCandidate e other now (askingOrder e now putOff ds) := by rw [nextCandidate, hds]; rfl
  rw [hstore, hother, askingOrder_eq_of_perm hperm hnodup, concept_of_firstCandidate h]

end Stores

/-! ## Stores that keep their records in another order -/

namespace VolatileStore

/-- Two stores with the same records, each kept in any order. -/
structure Permuted (s t : VolatileStore) : Prop where
  concepts : s.concepts.Perm t.concepts
  phrasings : s.phrasings.Perm t.phrasings
  log : s.log.Perm t.log

variable {s t : VolatileStore}

theorem enumerateAlike_of_permuted (h : s.Permuted t) (hs : s.Distinct) (now : Instant) :
    EnumerateAlike s t now where
  due := by
    refine ⟨_, _, rfl, rfl, ?_, nodup_due hs⟩
    exact (List.mergeSort_perm _ _).trans
      ((h.concepts.filter _).trans (List.mergeSort_perm _ _).symm)
  phrasingsOf id := by
    refine ⟨_, _, rfl, rfl, ?_⟩
    exact (List.mergeSort_perm _ _).trans
      ((h.phrasings.filter _).trans (List.mergeSort_perm _ _).symm)
  recent _ := ⟨⟨_, rfl⟩, _, rfl⟩

/-- The phrasings of a concept are reported in an order of their own. -/
theorem phrasingsOf_eq_of_perm (h : s.phrasings.Perm t.phrasings)
    (hs : (s.phrasings.map Phrasing.id).Nodup) (id : String) :
    s.phrasingsOf id = t.phrasingsOf id := by
  refine mergeSort_eq_of_perm compareAge (h.filter _) (List.Pairwise.filter _ ?_)
  refine (List.pairwise_map.1 hs).imp ?_
  intro p q hne heq
  exact hne (id_eq_of_compareAge heq)

instance : Std.TransCmp compareDue :=
  inferInstanceAs (Std.TransCmp (compareLex (compareLex (flip (compareOn Concept.isNew))
    (compareOn fun c => c.memory.nextReview)) (compareOn Concept.id)))

theorem id_eq_of_compareDue {c d : Concept} (h : compareDue c d = .eq) : c.id = d.id := by
  rw [compareDue, Ordering.then_eq_eq] at h
  exact Std.LawfulEqOrd.eq_of_compare h.2

theorem due_eq_of_perm (h : s.concepts.Perm t.concepts) (hs : (s.concepts.map Concept.id).Nodup)
    (now : Instant) (limit : Option Nat) : s.due now limit = t.due now limit := by
  have hsort := mergeSort_eq_of_perm compareDue (h.filter (·.isDue now)) (List.Pairwise.filter _
    ((List.pairwise_map.1 hs).imp fun hne heq => hne (id_eq_of_compareDue heq)))
  rw [due, hsort, due]

/-- Stores with the same log ask the same question, with the same phrasing and history. -/
theorem nextCandidate_eq_of_permuted (h : s.Permuted t) (hs : s.Distinct) (hlog : s.log = t.log)
    (e : Engine) (now : Instant) (putOff : List String) :
    nextCandidate e s now putOff = nextCandidate e t now putOff := by
  refine nextCandidate_congr ?_ ?_ ?_ e putOff
  · exact congrArg Except.ok (due_eq_of_perm h.concepts hs.concepts now none)
  · intro id
    exact congrArg Except.ok (phrasingsOf_eq_of_perm h.phrasings hs.phrasings id)
  · intro id limit
    show Except.ok (s.recent id limit) = .ok (t.recent id limit)
    rw [recent, recent, hlog]

end VolatileStore

namespace DatabaseStore

instance : Std.TransCmp compareDue :=
  inferInstanceAs (Std.TransCmp (compareLex (compareLex (flip (compareOn (hasState .new)))
    (compareOn fun r : Row 13 => (r.get ConceptTable.nextReview).text?))
    (compareOn fun r : Row 13 => (r.get ConceptTable.id).text?)))

instance : Std.TransCmp compareAge :=
  inferInstanceAs (Std.TransCmp (compareLex
    (compareOn fun r : Row 11 => (r.get PhrasingTable.createdAt).text?)
    (compareOn fun r : Row 11 => (r.get PhrasingTable.id).text?)))

theorem text_eq_of_compareDue {q r : Row 13} (h : compareDue q r = .eq) :
    (q.get ConceptTable.id).text? = (r.get ConceptTable.id).text? := by
  rw [compareDue, Ordering.then_eq_eq] at h
  exact Std.LawfulEqOrd.eq_of_compare h.2

theorem text_eq_of_compareAge {q r : Row 11} (h : compareAge q r = .eq) :
    (q.get PhrasingTable.id).text? = (r.get PhrasingTable.id).text? := by
  rw [compareAge, Ordering.then_eq_eq] at h
  exact Std.LawfulEqOrd.eq_of_compare h.2

/-- Two databases with the same rows of concepts and phrasings, each kept in any order, and the same
    interactions, written in the same order. -/
structure Permuted (db other : DatabaseStore) : Prop where
  concepts : db.concepts.Perm other.concepts
  phrasings : db.phrasings.Perm other.phrasings
  interactions : db.interactions = other.interactions

variable {db other : DatabaseStore}

theorem due_eq_of_permuted (h : db.Permuted other) (hdb : db.Distinct) (now : Instant)
    (limit : Option Nat) : db.due now limit = other.due now limit := by
  have hids : db.concepts.Pairwise fun q r => compareDue q r ≠ .eq := by
    refine (List.pairwise_map.1 hdb.concepts).imp ?_
    intro q r hne heq
    exact hne (text_eq_of_compareDue heq)
  have hrows : db.dueRows now = other.dueRows now :=
    mergeSort_eq_of_perm compareDue (h.concepts.filter (isDue now)) (hids.filter _)
  simp only [due, hrows]

theorem phrasingsOf_eq_of_permuted (h : db.Permuted other) (hdb : db.Distinct) (id : String) :
    db.phrasingsOf id = other.phrasingsOf id := by
  have hids : db.phrasings.Pairwise fun q r => compareAge q r ≠ .eq := by
    refine (List.pairwise_map.1 hdb.phrasings).imp ?_
    intro q r hne heq
    exact hne (text_eq_of_compareAge heq)
  rw [phrasingsOf, phrasingsOf,
    mergeSort_eq_of_perm compareAge (h.phrasings.filter _) (hids.filter _)]

/-- This holds of all rows, also of those that cannot be read. -/
theorem nextCandidate_eq_of_permuted (h : db.Permuted other) (hdb : db.Distinct) (e : Engine)
    (now : Instant) (putOff : List String) :
    nextCandidate e db now putOff = nextCandidate e other now putOff := by
  refine nextCandidate_congr (due_eq_of_permuted h hdb now none)
    (phrasingsOf_eq_of_permuted h hdb) ?_ e putOff
  intro id limit
  show db.recent id limit = other.recent id limit
  rw [recent, recent, recentRows, recentRows, h.interactions]

end DatabaseStore

/-- Under every engine the order by priority is a strict total order, so concepts with different
    identifiers are ranked and asked in the same order however they are enumerated, and stores that
    report the same records in any order ask about the same concept. Stores that keep their records
    in another order do so, and databases in which the rows are kept in another order give the same
    answer. -/
theorem ranksAlike_of_enumeration (e : Engine) (now : Instant) (putOff : List String) :
    e.IsTotalOrder now ∧
    (∀ cs ds : List Concept, (cs.map Concept.id).Nodup → cs.Perm ds →
      e.RanksAlike now putOff cs ds) ∧
    (∀ (σ τ : Type) [ReviewStore σ] [ReviewStore τ] (store : σ) (other : τ),
      EnumerateAlike store other now →
        (nextCandidate e store now putOff).map ReviewCandidate.concept? =
          (nextCandidate e other now putOff).map ReviewCandidate.concept?) ∧
    (∀ s t : VolatileStore, s.Distinct → s.Permuted t → EnumerateAlike s t now ∧
      (s.log = t.log → nextCandidate e s now putOff = nextCandidate e t now putOff)) ∧
    ∀ db other : DatabaseStore, db.Distinct → db.Permuted other →
      nextCandidate e db now putOff = nextCandidate e other now putOff := by
  refine ⟨e.isTotalOrder now, ?_, ?_, ?_, ?_⟩
  · intro cs ds hids hperm
    exact Engine.ranksAlike_of_perm hperm hids
  · intro σ τ _ _ store other h
    exact h.concept e putOff
  · intro s t hs h
    refine ⟨VolatileStore.enumerateAlike_of_permuted h hs now, ?_⟩
    intro hlog
    exact VolatileStore.nextCandidate_eq_of_permuted h hs hlog e now putOff
  · intro db other hdb h
    exact DatabaseStore.nextCandidate_eq_of_permuted h hdb e now putOff

/-- An engine that estimates no number for a memory without lapses, and a negative zero for all
    others. -/
def Engine.unsure : Engine where
  start := .fresh
  update m _ _ := .ok m
  retrievability m _ := if m.lapses = 0 then 0.0 / 0.0 else -0.0

/-- A concept in review that is due at the epoch. -/
def Concept.inReview (id : String) (lapses : UInt32) : Concept :=
  .create id "title" { MemoryState.fresh .epoch with state := .review, lapses } .epoch

theorem ranksAlike_of_unsure :
    let s : VolatileStore := ⟨[.inReview "a" 1, .inReview "b" 0],
      [.create "a" "a" "question" "answer" .epoch, .create "b" "b" "question" "answer" .epoch], []⟩
    let t : VolatileStore := ⟨[.inReview "b" 0, .inReview "a" 1], s.phrasings, []⟩
    s.concepts ≠ t.concepts ∧
      Engine.unsure.sortByPriority .epoch s.concepts =
        Engine.unsure.sortByPriority .epoch t.concepts ∧
      (nextCandidate Engine.unsure s .epoch ["b"]).map ReviewCandidate.concept? =
        (nextCandidate Engine.unsure t .epoch ["b"]).map ReviewCandidate.concept? ∧
      nextCandidate Engine.unsure s .epoch ["b"] = nextCandidate Engine.unsure t .epoch ["b"] ∧
      nextCandidate Engine.unsure s.tables .epoch ["b"] =
        nextCandidate Engine.unsure t.tables .epoch ["b"] := by
  intro s t
  obtain ⟨-, hranks, hconcept, hstores, hdatabases⟩ :=
    ranksAlike_of_enumeration Engine.unsure .epoch ["b"]
  have hids : (s.concepts.map Concept.id).Nodup := by decide
  have hs : s.Distinct := ⟨hids, by decide⟩
  have hperm : s.concepts.Perm t.concepts := .swap _ _ _
  have hpermuted : s.Permuted t := ⟨hperm, .refl _, .refl _⟩
  have hdb : s.tables.Distinct := ⟨by decide, by decide⟩
  obtain ⟨halike, hsame⟩ := hstores s t hs hpermuted
  refine ⟨?_, (hranks _ _ hids hperm).sorted, hconcept _ _ s t halike, hsame rfl,
    hdatabases _ _ hdb ⟨hperm.map _, .refl _, rfl⟩⟩
  intro heq
  have hid := congrArg (List.map Concept.id) heq
  exact absurd hid (by decide)

end SpacedReview
