import SpacedReview.Store.Volatile

/-!
# Recording in the volatile store

What an answer does to a concept and to a phrasing, and to a store that holds both.

## Main definitions

- `ReviewPatch.onConcept`, `ReviewPatch.onPhrasing` — the records after an answer
-/

namespace SpacedReview

namespace ReviewPatch

/-- The concept after the answer. -/
def onConcept (p : ReviewPatch) (c : Concept) : Concept :=
  { c with memory := p.memory, updatedAt := p.interaction.attemptedAt }

/-- The phrasing after the answer. -/
def onPhrasing (p : ReviewPatch) (q : Phrasing) : Phrasing :=
  { q with attemptCount := p.attemptCount, lastAttemptedAt := some p.lastAttemptedAt }

theorem onConcept_id (p : ReviewPatch) {c : Concept} {id : String} (h : c.id = id) :
    (p.onConcept c).id = id :=
  h

theorem onPhrasing_id (p : ReviewPatch) {q : Phrasing} {id : String} (h : q.id = id) :
    (p.onPhrasing q).id = id :=
  h

end ReviewPatch

namespace VolatileStore

/-- The store after an answer, if it has both records. -/
def recorded (s : VolatileStore) (p : ReviewPatch) : VolatileStore where
  concepts := Keyed.change Concept.id s.concepts p.conceptId p.onConcept
  phrasings := Keyed.change Phrasing.id s.phrasings p.phrasingId p.onPhrasing
  log := s.log ++ [p.interaction]

theorem find?_concepts_recorded (s : VolatileStore) (p : ReviewPatch) (id : String) :
    Keyed.find? Concept.id (s.recorded p).concepts id =
      if id = p.conceptId then (Keyed.find? Concept.id s.concepts p.conceptId).map p.onConcept
      else Keyed.find? Concept.id s.concepts id :=
  Keyed.find?_change Concept.id (fun _ => p.onConcept_id) id

theorem find?_phrasings_recorded (s : VolatileStore) (p : ReviewPatch) (id : String) :
    Keyed.find? Phrasing.id (s.recorded p).phrasings id =
      if id = p.phrasingId then (Keyed.find? Phrasing.id s.phrasings p.phrasingId).map p.onPhrasing
      else Keyed.find? Phrasing.id s.phrasings id :=
  Keyed.find?_change Phrasing.id (fun _ => p.onPhrasing_id) id

theorem record_eq_ok {s s' : VolatileStore} {p : ReviewPatch} :
    s.record p = .ok s' ↔
      Keyed.has Concept.id s.concepts p.conceptId ∧
      Keyed.has Phrasing.id s.phrasings p.phrasingId ∧ s.recorded p = s' := by
  show (if _ then _ else if _ then _ else Except.ok (s.recorded p)) = _ ↔ _
  by_cases hc : Keyed.has Concept.id s.concepts p.conceptId
  · by_cases hp : Keyed.has Phrasing.id s.phrasings p.phrasingId <;> simp [hc, hp]
  · simp [hc]

end VolatileStore

end SpacedReview
