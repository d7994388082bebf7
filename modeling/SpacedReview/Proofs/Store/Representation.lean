import SpacedReview.Proofs.Store.Changes
import SpacedReview.Proofs.Store.Failures
import SpacedReview.Proofs.Store.Restamping

/-!
# What a store represents

Whatever kind of store holds them, reviewing sees the records of a volatile store. A
`Representation` says for one kind of store which records a store holds, and at which times it
answers questions about them as the volatile store does. Recording an answer records it in both, up
to what the store keeps of it.

## Main definitions

- `Representation` — the records behind the stores of one kind
- `VolatileStore.representation`, `DatabaseStore.representation`
-/

namespace SpacedReview

/-- What a store keeps of an answer: all that it refers to, and the next review up to a fraction of
    a second. -/
structure ReviewPatch.Keeps (q p : ReviewPatch) : Prop where
  conceptId : q.conceptId = p.conceptId
  phrasingId : q.phrasingId = p.phrasingId
  nextReview : q.memory.nextReview.second = p.memory.nextReview.second

theorem ReviewPatch.keeps_kept (p : ReviewPatch) : p.kept.Keeps p :=
  ⟨rfl, rfl, rfl⟩

/-- The records that the stores of one kind hold. -/
structure Representation (σ : Type) [ReviewStore σ] where
  /-- The store holds the records of a volatile store. -/
  Holds : σ → VolatileStore → Prop
  /-- The times at which the store can be asked. -/
  Legible : Instant → Prop
  distinct {store : σ} {s : VolatileStore} : Holds store s → s.Distinct
  concept? {store : σ} {s : VolatileStore} : Holds store s →
    ∀ id, ReviewStore.concept? store id = ReviewStore.concept? s id
  phrasing? {store : σ} {s : VolatileStore} : Holds store s →
    ∀ id, ReviewStore.phrasing? store id = ReviewStore.phrasing? s id
  due {store : σ} {s : VolatileStore} : Holds store s → ∀ now, Legible now →
    ReviewStore.due store now none = ReviewStore.due s now none
  phrasingsOf {store : σ} {s : VolatileStore} : Holds store s →
    ∀ id, ReviewStore.phrasingsOf store id = ReviewStore.phrasingsOf s id
  recent {store : σ} {s : VolatileStore} : Holds store s →
    ∀ id limit, ReviewStore.recent store id limit = ReviewStore.recent s id limit
  record {store store' : σ} {s : VolatileStore} {p : ReviewPatch} : Holds store s →
    p.Within Legible (fun _ => True) → ReviewStore.record store p = .ok store' →
    ∃ q : ReviewPatch, q.Keeps p ∧ Holds store' (s.recorded q)
  record_error {store : σ} {s : VolatileStore} {p : ReviewPatch} {err : StoreError} :
    Holds store s → Keyed.has Concept.id s.concepts p.conceptId →
    Keyed.has Phrasing.id s.phrasings p.phrasingId →
    ReviewStore.record store p = .error err → err.IsDatabase

theorem Representation.nextCandidate {σ : Type} [ReviewStore σ] (h : Representation σ) {store : σ}
    {s : VolatileStore} (hs : h.Holds store s) {now : Instant} (hnow : h.Legible now) (e : Engine)
    (putOff : List String) :
    nextCandidate e store now putOff = SpacedReview.nextCandidate e s now putOff :=
  nextCandidate_congr (h.due hs now hnow) (h.phrasingsOf hs) (h.recent hs) e putOff

/-- A volatile store holds its own records. -/
def VolatileStore.representation : Representation VolatileStore where
  Holds store s := store = s ∧ s.Distinct
  Legible _ := True
  distinct h := h.2
  concept? h id := by rw [h.1]
  phrasing? h id := by rw [h.1]
  due h now _ := by rw [h.1]
  phrasingsOf h id := by rw [h.1]
  recent h id limit := by rw [h.1]
  record := by
    rintro store store' s p ⟨rfl, hdistinct⟩ - hrecord
    obtain ⟨-, -, rfl⟩ := record_eq_ok.1 hrecord
    exact ⟨p, ⟨rfl, rfl, rfl⟩, rfl, hdistinct.recorded p⟩
  record_error := by
    rintro store s p err ⟨rfl, -⟩ hconcept hphrasing hrecord
    have hok : store.record p = .ok (store.recorded p) := record_eq_ok.2 ⟨hconcept, hphrasing, rfl⟩
    have herr : store.record p = .error err := hrecord
    rw [hok] at herr
    simp at herr

/-- A database holds the records of its tables. -/
def DatabaseStore.representation : Representation DatabaseStore where
  Holds db s := s.tables = db ∧ s.Kept ∧ s.Distinct
  Legible := Instant.HasPlainYear
  distinct h := h.2.2
  concept? := by
    rintro _ s ⟨rfl, hkept, -⟩ id
    exact VolatileStore.concept?_tables hkept id
  phrasing? := by
    rintro _ s ⟨rfl, hkept, -⟩ id
    exact VolatileStore.phrasing?_tables hkept id
  due := by
    rintro _ s ⟨rfl, hkept, -⟩ now hnow
    exact VolatileStore.due_tables hkept hnow none
  phrasingsOf := by
    rintro _ s ⟨rfl, hkept, -⟩ id
    exact VolatileStore.phrasingsOf_tables hkept id
  recent := by
    rintro _ s ⟨rfl, hkept, -⟩ id limit
    exact VolatileStore.recent_tables hkept id limit
  record := by
    rintro _ db s p ⟨rfl, hkept, hdistinct⟩ hwithin hrecord
    have hrecord : s.tables.record p = .ok db := hrecord
    obtain ⟨-, -, hnumeric, -, -, -, rfl⟩ := VolatileStore.record_tables_eq_ok.1 hrecord
    exact ⟨p.kept, p.keeps_kept, rfl,
      hkept.recorded (VolatileStore.within_kept_patch hwithin hnumeric)
        (VolatileStore.elapsedMs_kept_le _), hdistinct.recorded p.kept⟩
  record_error := by
    rintro _ s p err ⟨rfl, -, -⟩ hconcept hphrasing hrecord
    rcases DatabaseStore.record_eq_error hrecord with hnone | hnone | herr
    · rw [VolatileStore.hasText_concepts] at hnone
      exact absurd hconcept hnone
    · rw [VolatileStore.hasText_phrasings] at hnone
      exact absurd hphrasing hnone
    · exact herr

end SpacedReview
