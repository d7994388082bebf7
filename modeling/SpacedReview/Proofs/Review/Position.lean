import Mathlib.Data.Set.Function
import SpacedReview.Proofs.Review.PutOff

/-!
# The position of a phrasing

A question tells its position among the phrasings of its concept that can be shown. The phrasing is
looked up in a list that is sorted by age once more, after the store has sorted it by age and
identifier. Both ways of sorting agree, so that phrasings created at one instant have different
positions, and every position is taken.

## Main definitions

- `VolatileStore.position` — the position that the records of a store call for
- `VolatileStore.Positions` — a store reports the positions that its records call for

## Main statements

- `positions_of_distinct_of_filled` — the positions that both stores report
-/

namespace SpacedReview

namespace VolatileStore

/-- The phrasings of a concept that were neither archived nor deleted. -/
def shownPhrasings (s : VolatileStore) (c : Concept) : List Phrasing :=
  s.phrasings.filter fun p => p.conceptId = c.id ∧ p.archivedAt = none ∧ p.deletedAt = none

/-- The position of a phrasing among those of a concept that can be shown, counted from one: the
    older first, and of two created at one instant the one with the smaller identifier. -/
def position (s : VolatileStore) (c : Concept) (p : Phrasing) : Nat :=
  (s.shownPhrasings c).countP (fun q => compareAge q p = .lt) + 1

/-- What is told about a phrasing of a concept: its position, which is one of as many as phrasings
    can be shown. -/
structure IsPosition (s : VolatileStore) (c : Concept) (p : Phrasing) (stats : PhrasingStats) :
    Prop where
  index : stats.index.toNat = s.position c p
  total : stats.total.toNat = (s.shownPhrasings c).length
  pos : 1 ≤ stats.index.toNat
  le : stats.index.toNat ≤ stats.total.toNat

/-- A store with these records tells the right position with every question that it asks, and would
    do so for every phrasing that can be shown. The phrasings of a concept that can be shown take
    all positions, each one of them. -/
structure Positions {σ : Type} [ReviewStore σ] (s : VolatileStore) (store : σ) : Prop where
  found : ∀ (e : Engine) (now : Instant) (putOff : List String) (f : FoundCandidate),
    nextCandidate e store now putOff = .ok (.found f) → s.Shows f.concept f.phrasing ∧
      ∃ stats, f.phrasingStats = some stats ∧ s.IsPosition f.concept f.phrasing stats
  reported : ∀ c : Concept, ∃ ps, ReviewStore.phrasingsOf store c.id = .ok ps ∧
    ∀ p, s.Shows c p → ∃ stats, phrasingStats? ps p.id = some stats ∧ s.IsPosition c p stats
  bijective : ∀ c : Concept,
    Set.BijOn (s.position c) {p | s.Shows c p} (Set.Icc 1 (s.shownPhrasings c).length)

/-! ## Sorted phrasings -/

theorem createdAt_le_of_compareAge {p q : Phrasing} (h : compareAge p q = .lt) :
    p.createdAt ≤ q.createdAt := by
  rw [Instant.le_iff_not_lt]
  intro hlt
  rw [compareAge, Instant.compare_eq_gt.2 hlt] at h
  cases h

/-- Sorting by age leaves phrasings in the order in which the stores list them. -/
theorem sortByAge_of_pairwise {ps : List Phrasing}
    (h : ps.Pairwise fun p q => compareAge p q = .lt) : sortByAge ps = ps :=
  List.mergeSort_of_pairwise (h.imp fun hlt => decide_eq_true (createdAt_le_of_compareAge hlt))

variable {s : VolatileStore} {c : Concept} {p : Phrasing}

/-- The phrasings of a concept that can be shown, as they are listed. -/
theorem pairwise_showable (h : s.Distinct) (c : Concept) :
    (showable none (s.phrasingsOf c.id)).Pairwise fun p q => compareAge p q = .lt :=
  (pairwise_phrasingsOf h c.id).filter _

theorem showable_perm (s : VolatileStore) (c : Concept) :
    (showable none (s.phrasingsOf c.id)).Perm (s.shownPhrasings c) := by
  have hsorted : (s.phrasingsOf c.id).Perm (s.phrasings.filter (·.conceptId = c.id)) :=
    List.mergeSort_perm _ _
  have hfilter : showable none (s.phrasings.filter (·.conceptId = c.id)) = s.shownPhrasings c := by
    rw [showable, shownPhrasings, List.filter_filter]
    refine List.filter_congr fun p _ => ?_
    rw [Bool.eq_iff_iff]
    simp [Phrasing.isShowable, Phrasing.isRetired, and_comm]
  rw [← hfilter]
  exact hsorted.filter _

/-- As many phrasings come before one as its position says. -/
theorem position_of_getElem? (h : s.Distinct) {i : Nat}
    (hi : (showable none (s.phrasingsOf c.id))[i]? = some p) : s.position c p = i + 1 := by
  rw [position, ← (showable_perm s c).countP_eq,
    countP_lt_of_getElem? compareAge (pairwise_showable h c) hi]

theorem exists_getElem?_of_shows (h : s.Shows c p) :
    ∃ i : Nat, (showable none (s.phrasingsOf c.id))[i]? = some p :=
  List.mem_iff_getElem?.1 (mem_showable_phrasingsOf.2 h)

/-- The phrasings that can be shown take all positions, and each one of them. -/
theorem bijOn_position (h : s.Distinct) (c : Concept) :
    Set.BijOn (s.position c) {p | s.Shows c p} (Set.Icc 1 (s.shownPhrasings c).length) := by
  have hlength := (showable_perm s c).length_eq
  refine ⟨fun p hp => ?_, fun p hp q hq heq => ?_, fun k hk => ?_⟩
  · obtain ⟨i, hi⟩ := exists_getElem?_of_shows hp
    have hlt := (List.getElem?_eq_some_iff.1 hi).1
    rw [Set.mem_Icc, position_of_getElem? h hi]
    omega
  · obtain ⟨i, hi⟩ := exists_getElem?_of_shows hp
    obtain ⟨j, hj⟩ := exists_getElem?_of_shows hq
    rw [position_of_getElem? h hi, position_of_getElem? h hj] at heq
    obtain rfl := Nat.succ.inj heq
    exact Option.some.inj (hi.symm.trans hj)
  · obtain ⟨hone, hle⟩ := Set.mem_Icc.1 hk
    have hlt : k - 1 < (showable none (s.phrasingsOf c.id)).length := by omega
    have hi := List.getElem?_eq_getElem hlt
    refine ⟨_, mem_showable_phrasingsOf.1 (List.getElem_mem hlt), ?_⟩
    rw [position_of_getElem? h hi]
    omega

/-! ## What is told -/

/-- Looking up a phrasing by its identifier finds it. -/
theorem findIdx?_of_getElem? (h : s.Distinct) {i : Nat}
    (hi : (showable none (s.phrasingsOf c.id))[i]? = some p) :
    (showable none (s.phrasingsOf c.id)).findIdx? (fun q => q.id = p.id) = some i := by
  obtain ⟨hlt, rfl⟩ := List.getElem?_eq_some_iff.1 hi
  have hids : ((showable none (s.phrasingsOf c.id)).map Phrasing.id).Nodup := by
    have hsub : (s.shownPhrasings c).Sublist s.phrasings := List.filter_sublist
    exact ((showable_perm s c).map _).nodup_iff.2 (h.phrasings.sublist (hsub.map _))
  refine List.findIdx?_eq_some_iff_getElem.2 ⟨hlt, decide_eq_true rfl, fun j hj heq => ?_⟩
  have hids' := List.pairwise_iff_getElem.1 (List.pairwise_map.1 hids)
  exact hids' j i (hj.trans hlt) hlt hj (of_decide_eq_true heq)

/-- A word can count the phrasings, so that the position and the number of phrasings are told as
    they are. -/
theorem exists_isPosition (h : s.Distinct) (hsize : s.phrasings.length < UInt64.size)
    (hp : s.Shows c p) :
    ∃ stats, phrasingStats? (s.phrasingsOf c.id) p.id = some stats ∧ s.IsPosition c p stats := by
  obtain ⟨i, hi⟩ := exists_getElem?_of_shows hp
  have hlt := (List.getElem?_eq_some_iff.1 hi).1
  have hposition := position_of_getElem? h hi
  have hlength := (showable_perm s c).length_eq
  have hle : (s.shownPhrasings c).length ≤ s.phrasings.length := List.length_filter_le _ _
  have hindex : (UInt64.ofNat (i + 1)).toNat = i + 1 := UInt64.toNat_ofNat_of_lt' (by omega)
  have htotal : (UInt64.ofNat (showable none (s.phrasingsOf c.id)).length).toNat =
      (s.shownPhrasings c).length := by
    rw [hlength, UInt64.toNat_ofNat_of_lt' (by omega)]
  have hstats : phrasingStats? (s.phrasingsOf c.id) p.id =
      some ⟨UInt64.ofNat (i + 1), UInt64.ofNat (showable none (s.phrasingsOf c.id)).length⟩ := by
    rw [phrasingStats?, sortByAge_of_pairwise (pairwise_showable h c)]
    simp only [findIdx?_of_getElem? h hi, Option.map_some]
  refine ⟨_, hstats, ?_, htotal, ?_, ?_⟩
  · rw [hindex, hposition]
  · rw [hindex]
    omega
  · rw [hindex, htotal]
    omega

/-- A store tells the positions that the records behind it call for, at any time. -/
theorem positions_of_holds {σ : Type} [ReviewStore σ] {r : Representation σ} {store : σ}
    (hs : r.Holds store s) (hsize : s.phrasings.length < UInt64.size) : s.Positions store := by
  have hphrasings (c : Concept) :
      ReviewStore.phrasingsOf store c.id = .ok (s.phrasingsOf c.id) := r.phrasingsOf hs c.id
  refine ⟨fun e now putOff f hf => ?_, fun c => ?_, bijOn_position (r.distinct hs)⟩
  · obtain ⟨due, -, hfirst⟩ := exists_due_of_nextCandidate hf
    obtain ⟨before, after, -, hcandidate, -⟩ := exists_of_firstCandidate hfirst
    obtain ⟨-, ps, hps, hchosen, hstats⟩ := chosen_of_candidateFor? hcandidate
    obtain rfl := Except.ok.inj ((hphrasings f.concept).symm.trans hps)
    have hshows : s.Shows f.concept f.phrasing := mem_showable_phrasingsOf.1 hchosen.mem
    rw [hstats]
    exact ⟨hshows, exists_isPosition (r.distinct hs) hsize hshows⟩
  · exact ⟨s.phrasingsOf c.id, hphrasings c, fun p => exists_isPosition (r.distinct hs) hsize⟩

end VolatileStore

/-- Every volatile store, and every database that was filled by its own changes at times in the
    years 0 to 9999, tells the position of a phrasing as its records call for. -/
theorem positions_of_distinct_of_filled :
    (∀ s : VolatileStore, s.Distinct → s.phrasings.length < UInt64.size → s.Positions s) ∧
    ∀ db : DatabaseStore, db.Filled →
      ∃ s, db.contents = .ok s ∧ (s.phrasings.length < UInt64.size → s.Positions db) := by
  refine ⟨fun s hs hsize => ?_, fun db hdb => ?_⟩
  · have hholds : VolatileStore.representation.Holds s s := ⟨rfl, hs⟩
    exact VolatileStore.positions_of_holds hholds hsize
  · obtain ⟨s, hkept, hdistinct, rfl⟩ := hdb.exists_tables
    have hholds : DatabaseStore.representation.Holds s.tables s := ⟨rfl, hkept, hdistinct⟩
    exact ⟨s, DatabaseStore.contents_tables hkept, VolatileStore.positions_of_holds hholds⟩

/-! ## Two phrasings of one age -/

namespace VolatileStore

/-- A store of one concept with two phrasings that were created at the same time. -/
def twoPhrasings (now : Instant) : VolatileStore :=
  { empty.addQuestion "a" now with
    phrasings := (empty.addQuestion "a" now).phrasings ++
      [.create "b" "a" "question" "answer" now] }

variable {now : Instant}

theorem kept_twoPhrasings (h : now.IsMicro) : (twoPhrasings now).Kept := by
  have hkept : (empty.addQuestion "a" now).Kept := kept_empty.addQuestion h
  refine ⟨hkept.concepts, List.forall_mem_append.2 ⟨hkept.phrasings, ?_⟩, hkept.log⟩
  rw [List.forall_mem_singleton]
  exact Phrasing.within_create _ _ _ _ h

theorem filled_twoPhrasings (h : now.IsMicro) : (twoPhrasings now).tables.Filled :=
  filled_insertPhrasing (filled_addQuestion (s := empty) .empty h (by decide) (by decide))
    (Phrasing.within_create _ _ _ _ h)
    (by simp [Keyed.has_iff, addQuestion, empty, Concept.create, Phrasing.create])
    (by simp [Keyed.has_iff, addQuestion, empty, Phrasing.create])

theorem distinct_twoPhrasings (now : Instant) : (twoPhrasings now).Distinct := by
  constructor <;> simp [twoPhrasings, addQuestion, empty, Concept.create, Phrasing.create]

/-- The phrasing with the smaller identifier is asked, and it is the first of two. -/
theorem phrasingStats_twoPhrasings {σ : Type} [ReviewStore σ] {e : Engine} {store : σ}
    (hpositions : (twoPhrasings .epoch).Positions store)
    (hanswers : (twoPhrasings .epoch).Answers e store .epoch []) :
    ∃ f, nextCandidate e store .epoch [] = .ok (.found f) ∧ f.phrasing.id = "a" ∧
      f.phrasingStats = some ⟨1, 2⟩ := by
  let c := Concept.create "a" "title" (.fresh .epoch) .epoch
  let p := Phrasing.create "a" "a" "question" "answer" .epoch
  let q := Phrasing.create "b" "a" "question" "answer" .epoch
  have hp : (twoPhrasings .epoch).Shows c p := ⟨List.mem_cons_self, rfl, rfl, rfl⟩
  obtain ⟨answer, hanswer, hright⟩ := hanswers.next
  cases answer with
  | pending => exact hright.elim
  | empty => exact absurd ⟨List.mem_singleton_self c, by decide, p, hp⟩ (hright c)
  | found f =>
    obtain ⟨⟨hmem, -⟩, -, hchoice, -⟩ := hright
    have hconcept : f.concept = c := List.mem_singleton.1 hmem
    rw [hconcept] at hchoice
    have hphrasing : f.phrasing = p := by
      rcases List.mem_cons.1 hchoice.shows.1 with heq | hmem
      · exact heq
      · -- The other phrasing is neither seen less nor older.
        have hq : f.phrasing = q := List.mem_singleton.1 hmem
        rw [hq] at hchoice
        rcases hchoice.least rfl hp (by decide) with hless | ⟨-, hage⟩
        · exact absurd hless (lt_irrefl _)
        · have hgt : compareAge q p = .gt := by
            show (compare Instant.epoch .epoch).then (compare "b" "a") = .gt
            decide
          rw [hgt] at hage
          cases hage
    obtain ⟨-, stats, hstats, hposition⟩ := hpositions.found _ _ _ _ hanswer
    rw [hconcept, hphrasing] at hposition
    have hindex : (twoPhrasings .epoch).position c p = 1 := by decide
    have htotal : ((twoPhrasings .epoch).shownPhrasings c).length = 2 := by decide
    have hvalues : stats = ⟨1, 2⟩ := by
      rw [PhrasingStats.mk.injEq, ← UInt64.toNat_inj, ← UInt64.toNat_inj]
      exact ⟨hposition.index.trans hindex, hposition.total.trans htotal⟩
    exact ⟨f, hanswer, by rw [hphrasing]; rfl, by rw [hstats, hvalues]⟩

end VolatileStore

theorem positions_twoPhrasings :
    let s := VolatileStore.twoPhrasings .epoch
    (∃ f, nextCandidate Parameters.standard.engine s .epoch [] = .ok (.found f) ∧
      f.phrasing.id = "a" ∧ f.phrasingStats = some ⟨1, 2⟩) ∧
    (∃ f, nextCandidate Parameters.standard.engine s.tables .epoch [] = .ok (.found f) ∧
      f.phrasing.id = "a" ∧ f.phrasingStats = some ⟨1, 2⟩) ∧
    Set.BijOn (s.position (.create "a" "title" (.fresh .epoch) .epoch))
      {p | s.Shows (.create "a" "title" (.fresh .epoch) .epoch) p} (Set.Icc 1 2) := by
  intro s
  have hmicro : Instant.epoch.IsMicro := by decide
  have hdistinct : s.Distinct := VolatileStore.distinct_twoPhrasings .epoch
  have hkept : s.Kept := VolatileStore.kept_twoPhrasings hmicro
  have hsize : s.phrasings.length < UInt64.size := by decide
  obtain ⟨hvolatile, hdatabase⟩ := positions_of_distinct_of_filled
  have hholds : VolatileStore.representation.Holds s s := ⟨rfl, hdistinct⟩
  have hholds' : DatabaseStore.representation.Holds s.tables s := ⟨rfl, hkept, hdistinct⟩
  refine ⟨?_, ?_, (hvolatile s hdistinct hsize).bijective _⟩
  · exact VolatileStore.phrasingStats_twoPhrasings (hvolatile s hdistinct hsize)
      (VolatileStore.answers_of_holds hholds trivial _ _)
  · obtain ⟨s', hs', hpositions⟩ := hdatabase s.tables (VolatileStore.filled_twoPhrasings hmicro)
    rw [DatabaseStore.contents_tables hkept, Except.ok.injEq] at hs'
    subst hs'
    exact VolatileStore.phrasingStats_twoPhrasings (hpositions hsize)
      (VolatileStore.answers_of_holds hholds' hmicro.1 _ _)

end SpacedReview
