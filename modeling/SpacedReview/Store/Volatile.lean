import SpacedReview.Store.Basic
import SpacedReview.Store.Keyed

/-!
# The volatile store

A store that lives as long as the program and keeps every record exactly as it is given. Inserting
a record with a known identifier replaces the old one.
-/

namespace SpacedReview

/-- Concepts and phrasings by identifier, and the log of interactions, oldest first. -/
structure VolatileStore where
  concepts : List Concept
  phrasings : List Phrasing
  log : List Interaction
deriving DecidableEq

namespace VolatileStore

/-- The store without records. -/
def empty : VolatileStore :=
  ⟨[], [], []⟩

/-- The order of due concepts: never reviewed ones first, then by due date and identifier. -/
def compareDue (a b : Concept) : Ordering :=
  ((compare b.isNew a.isNew).then (compare a.memory.nextReview b.memory.nextReview)).then
    (compare a.id b.id)

/-- The order of phrasings: by age and identifier. -/
def compareAge (p q : Phrasing) : Ordering :=
  (compare p.createdAt q.createdAt).then (compare p.id q.id)

/-- A list cut to a limit, if there is one. -/
def cutTo {α : Type} (limit : Option Nat) (xs : List α) : List α :=
  match limit with
  | none => xs
  | some n => xs.take n

/-- The due concepts in order. -/
def due (s : VolatileStore) (now : Instant) (limit : Option Nat) : List Concept :=
  cutTo limit ((s.concepts.filter (·.isDue now)).mergeSort fun a b => compareDue a b ≠ .gt)

/-- The phrasings of a concept in order. -/
def phrasingsOf (s : VolatileStore) (conceptId : String) : List Phrasing :=
  (s.phrasings.filter (·.conceptId = conceptId)).mergeSort fun p q => compareAge p q ≠ .gt

/-- The latest interactions with a phrasing. Of two at one instant the one written later comes
    first. -/
def recent (s : VolatileStore) (phrasingId : String) (limit : Nat) : List Interaction :=
  (((s.log.filter (·.phrasingId = phrasingId)).reverse).mergeSort
    fun i j => compare j.attemptedAt i.attemptedAt ≠ .gt).take limit

/-- The number of concepts in a learning state. -/
def countState (s : VolatileStore) (state : LearningState) : UInt64 :=
  UInt64.ofNat (s.concepts.countP (·.memory.state = state))

/-- The overview at an instant. -/
def stats (s : VolatileStore) (now : Instant) : ReviewStats where
  totalConcepts := UInt64.ofNat s.concepts.length
  dueNow := UInt64.ofNat (s.concepts.countP (·.isDue now))
  newConcepts := s.countState .new
  learning := s.countState .learning
  review := s.countState .review
  relearning := s.countState .relearning
  totalPhrasings := UInt64.ofNat s.phrasings.length
  totalInteractions := UInt64.ofNat s.log.length

/-- The store after one answer, or an error if the concept or the phrasing is not there. -/
def record (s : VolatileStore) (p : ReviewPatch) : Except StoreError VolatileStore :=
  if !Keyed.has Concept.id s.concepts p.conceptId then .error (.notFound p.conceptId)
  else if !Keyed.has Phrasing.id s.phrasings p.phrasingId then .error (.notFound p.phrasingId)
  else .ok {
    concepts := Keyed.change Concept.id s.concepts p.conceptId fun c =>
      { c with memory := p.memory, updatedAt := p.interaction.attemptedAt }
    phrasings := Keyed.change Phrasing.id s.phrasings p.phrasingId fun q =>
      { q with attemptCount := p.attemptCount, lastAttemptedAt := some p.lastAttemptedAt }
    log := s.log ++ [p.interaction] }

instance : ReviewStore VolatileStore where
  concept? s id := .ok (Keyed.find? Concept.id s.concepts id)
  due s now limit := .ok (s.due now limit)
  phrasingsOf s id := .ok (s.phrasingsOf id)
  phrasing? s id := .ok (Keyed.find? Phrasing.id s.phrasings id)
  recent s id limit := .ok (s.recent id limit)
  stats s now := .ok (s.stats now)
  record := record

/-- The store with one more concept. -/
def insertConcept (s : VolatileStore) (c : Concept) : VolatileStore :=
  { s with concepts := Keyed.put Concept.id s.concepts c }

/-- The store with one more phrasing, whose concept must be there. -/
def insertPhrasing (s : VolatileStore) (p : Phrasing) : Except StoreError VolatileStore :=
  if Keyed.has Concept.id s.concepts p.conceptId then
    .ok { s with phrasings := Keyed.put Phrasing.id s.phrasings p }
  else .error (.notFound p.conceptId)

/-- The store with another preferred phrasing for a concept. The concept does not count as
    updated. -/
def setCanonical (s : VolatileStore) (conceptId : String) (phrasingId : Option String) :
    Except StoreError VolatileStore :=
  if Keyed.has Concept.id s.concepts conceptId then
    .ok { s with concepts := Keyed.change Concept.id s.concepts conceptId fun c =>
            { c with canonicalPhrasing := phrasingId } }
  else .error (.notFound conceptId)

/-- The store with a phrasing archived that was not archived before. -/
def archivePhrasing (s : VolatileStore) (id : String) (now : Instant) :
    Except StoreError VolatileStore :=
  match Keyed.find? Phrasing.id s.phrasings id with
  | none => .error (.notFound id)
  | some p =>
    if p.archivedAt.isSome then .error (.notFound id)
    else .ok { s with phrasings := Keyed.change Phrasing.id s.phrasings id fun q =>
                 { q with archivedAt := some now } }

instance : Catalogued VolatileStore where
  insertConcept s c := .ok (s.insertConcept c)
  insertPhrasing := insertPhrasing
  setCanonical s conceptId phrasingId _ := s.setCanonical conceptId phrasingId
  archivePhrasing := archivePhrasing

end VolatileStore

end SpacedReview
