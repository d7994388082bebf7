import SpacedReview.Proofs.Store.Mirror
import SpacedReview.Review.Candidate

/-!
# Stores that differ in times of change

A database that points a concept at a phrasing counts the concept as changed at that time, and a
volatile store does not. Nothing else depends on when a concept was changed: a store in which these
times are replaced by others answers every question with the same records, in the same order, and
with the replaced times.

## Main definitions

- `Concept.restamp`, `VolatileStore.restamp`, `ReviewCandidate.restamp` — replaced times of change

## Main statements

- `VolatileStore.due_restamp`, `VolatileStore.stats_restamp`, `VolatileStore.nextCandidate_restamp`
-/

namespace SpacedReview

/-- The concept with the time of change that is given for it, if there is one. -/
def Concept.restamp (times : String → Option Instant) (c : Concept) : Concept :=
  { c with updatedAt := (times c.id).getD c.updatedAt }

/-- The candidate with the time of change that is given for its concept. -/
def FoundCandidate.restamp (times : String → Option Instant) (f : FoundCandidate) :
    FoundCandidate :=
  { f with concept := f.concept.restamp times }

/-- The answer with the time of change that is given for its concept. -/
def ReviewCandidate.restamp (times : String → Option Instant) : ReviewCandidate → ReviewCandidate
  | found f => found (f.restamp times)
  | other => other

theorem Concept.restamp_of_eq {g h : String → Option Instant} {c : Concept}
    (heq : g c.id = h c.id) : c.restamp g = c.restamp h := by
  rw [restamp, restamp, heq]

namespace VolatileStore

/-- The store with the times of change that are given for its concepts. -/
def restamp (times : String → Option Instant) (s : VolatileStore) : VolatileStore :=
  { s with concepts := s.concepts.map (·.restamp times) }

variable (times : String → Option Instant) (s : VolatileStore)

theorem find?_restamp (id : String) : Keyed.find? Concept.id (s.restamp times).concepts id =
    (Keyed.find? Concept.id s.concepts id).map (·.restamp times) := by
  rw [Keyed.find?, restamp, List.find?_map]
  rfl

theorem has_restamp (id : String) : Keyed.has Concept.id (s.restamp times).concepts id =
    Keyed.has Concept.id s.concepts id := by
  rw [Keyed.has, restamp, List.any_map]
  rfl

theorem due_restamp (now : Instant) (limit : Option Nat) :
    (s.restamp times).due now limit = (s.due now limit).map (·.restamp times) := by
  have hfilter : (s.concepts.map (·.restamp times)).filter (·.isDue now) =
      (s.concepts.filter (·.isDue now)).map (·.restamp times) :=
    filter_map_of fun _ _ => rfl
  -- Neither what is due nor the order of what is due depends on the time of change.
  have hsort : ((s.concepts.map (·.restamp times)).filter (·.isDue now)).mergeSort
      (fun a b => compareDue a b ≠ .gt) = ((s.concepts.filter (·.isDue now)).mergeSort
        fun a b => compareDue a b ≠ .gt).map (·.restamp times) := by
    rw [hfilter]
    exact (List.map_mergeSort (f := Concept.restamp times) fun _ _ _ _ => rfl).symm
  rw [due, restamp, hsort, due]
  cases limit with
  | none => rfl
  | some n => exact List.map_take.symm

theorem stats_restamp (now : Instant) : (s.restamp times).stats now = s.stats now := by
  have hstate (state : LearningState) :
      (s.restamp times).countState state = s.countState state := by
    rw [countState, countState, restamp, List.countP_map]
    rfl
  have hdue : (s.restamp times).concepts.countP (·.isDue now) =
      s.concepts.countP (·.isDue now) := by
    rw [restamp, List.countP_map]
    rfl
  rw [stats, stats, hstate, hstate, hstate, hstate, hdue]
  simp only [restamp, List.length_map]

theorem askingOrder_restamp (e : Engine) (now : Instant) (putOff : List String)
    (cs : List Concept) : askingOrder e now putOff (cs.map (·.restamp times)) =
      (askingOrder e now putOff cs).map (·.restamp times) := by
  have hsort : e.sortByPriority now (cs.map (·.restamp times)) =
      (e.sortByPriority now cs).map (·.restamp times) :=
    (List.map_mergeSort (f := Concept.restamp times) fun _ _ _ _ => rfl).symm
  rw [askingOrder, askingOrder, hsort, List.map_append]
  congr 1
  · exact filter_map_of fun _ _ => rfl
  · exact filter_map_of fun _ _ => rfl

theorem candidateFor?_restamp (e : Engine) (now : Instant) (c : Concept) :
    candidateFor? e (s.restamp times) now (c.restamp times) =
      (candidateFor? e s now c).map (Option.map (·.restamp times)) := by
  have hphrasings : ReviewStore.phrasingsOf (s.restamp times) (c.restamp times).id =
      .ok (s.phrasingsOf c.id) := rfl
  have hphrasings' : ReviewStore.phrasingsOf s c.id = .ok (s.phrasingsOf c.id) := rfl
  have hcanonical : (c.restamp times).canonicalPhrasing = c.canonicalPhrasing := rfl
  simp only [candidateFor?, hphrasings, hphrasings', hcanonical, Except.mapError, bind, Except.bind]
  cases (selectPreferred c.canonicalPhrasing (s.phrasingsOf c.id)).phrasing? with
  | none => rfl
  | some p => rfl

theorem firstCandidate_restamp (e : Engine) (now : Instant) (cs : List Concept) :
    firstCandidate e (s.restamp times) now (cs.map (·.restamp times)) =
      (firstCandidate e s now cs).map (·.restamp times) := by
  induction cs with
  | nil => rfl
  | cons c cs ih =>
    rw [List.map_cons, firstCandidate, firstCandidate, candidateFor?_restamp]
    rcases candidateFor? e s now c with err | _ | found
    · rfl
    · exact ih
    · rfl

theorem nextCandidate_restamp (e : Engine) (now : Instant) (putOff : List String) :
    nextCandidate e (s.restamp times) now putOff =
      (nextCandidate e s now putOff).map (·.restamp times) := by
  show firstCandidate e (s.restamp times) now
    (askingOrder e now putOff ((s.restamp times).due now none)) = _
  rw [due_restamp, askingOrder_restamp, firstCandidate_restamp]
  rfl

end VolatileStore

/-! ## Stores with the same answers -/

section Congr

variable {σ τ : Type} [ReviewStore σ] [ReviewStore τ] {store : σ} {other : τ} {now : Instant}

/-- Two stores that report the same phrasings and interactions have the same first candidate. -/
theorem firstCandidate_congr
    (hphrasings : ∀ id, ReviewStore.phrasingsOf store id = ReviewStore.phrasingsOf other id)
    (hrecent : ∀ id limit, ReviewStore.recent store id limit = ReviewStore.recent other id limit)
    (e : Engine) (now : Instant) (cs : List Concept) :
    firstCandidate e store now cs = firstCandidate e other now cs := by
  have hcandidate (c : Concept) :
      candidateFor? e store now c = candidateFor? e other now c := by
    simp only [candidateFor?, hphrasings, hrecent]
  induction cs with
  | nil => rfl
  | cons c cs ih => rw [firstCandidate, firstCandidate, hcandidate, ih]

/-- Two stores that also report the same due concepts have the same next candidate. -/
theorem nextCandidate_congr
    (hdue : ReviewStore.due store now none = ReviewStore.due other now none)
    (hphrasings : ∀ id, ReviewStore.phrasingsOf store id = ReviewStore.phrasingsOf other id)
    (hrecent : ∀ id limit, ReviewStore.recent store id limit = ReviewStore.recent other id limit)
    (e : Engine) (putOff : List String) :
    nextCandidate e store now putOff = nextCandidate e other now putOff := by
  simp only [nextCandidate, hdue, firstCandidate_congr hphrasings hrecent]

end Congr

theorem VolatileStore.nextCandidate_tables {s : VolatileStore} (h : s.Kept) {now : Instant}
    (hnow : now.HasPlainYear) (e : Engine) (putOff : List String) :
    nextCandidate e s.tables now putOff = nextCandidate e s now putOff :=
  nextCandidate_congr (due_tables h hnow none) (phrasingsOf_tables h) (recent_tables h) e putOff

end SpacedReview
