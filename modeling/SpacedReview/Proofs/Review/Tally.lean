import SpacedReview.Proofs.Review.Planning
import SpacedReview.Proofs.Store.Records
import SpacedReview.Proofs.Store.Volatile

/-!
# Counters and the log of a store

How many answers a concept counts, how many attempts a phrasing counts, and which interactions the
log has. These can be looked at in any store, also where other parts of a record cannot be read,
and one answer changes them in one way.

## Main definitions

- `Tally` — the counters and the log of a store
-/

namespace SpacedReview

/-- The counters and the log of a store, and what recording an answer does to them. -/
class Tally (σ : Type) [ReviewStore σ] where
  /-- The answers that a concept counts. -/
  reps? : σ → String → Option UInt32
  /-- The attempts that a phrasing counts. -/
  attempts? : σ → String → Option UInt32
  /-- The interaction is in the log. -/
  Logs : σ → Interaction → Prop
  of_concept? {store : σ} {id : String} {c : Concept} :
    ReviewStore.concept? store id = .ok (some c) → c.id = id ∧ reps? store id = some c.memory.reps
  of_phrasing? {store : σ} {id : String} {p : Phrasing} :
    ReviewStore.phrasing? store id = .ok (some p) →
      p.id = id ∧ attempts? store id = some p.attemptCount
  reps?_record {store store' : σ} {p : ReviewPatch} :
    ReviewStore.record store p = .ok store' → reps? store' p.conceptId = some p.memory.reps
  attempts?_record {store store' : σ} {p : ReviewPatch} (id : String) :
    ReviewStore.record store p = .ok store' →
      attempts? store' id = if id = p.phrasingId then some p.attemptCount else attempts? store id
  logs_record {store store' : σ} {p : ReviewPatch} {i : Interaction} :
    ReviewStore.record store p = .ok store' → Logs store i ∨ i = p.interaction → Logs store' i

namespace VolatileStore

instance : Tally VolatileStore where
  reps? s id := (Keyed.find? Concept.id s.concepts id).map fun c => c.memory.reps
  attempts? s id := (Keyed.find? Phrasing.id s.phrasings id).map Phrasing.attemptCount
  Logs s i := i ∈ s.log
  of_concept? {s id c} h := by
    have hc : Keyed.find? Concept.id s.concepts id = some c := Except.ok.inj h
    exact ⟨Keyed.key_of_find? _ hc, by rw [hc]; rfl⟩
  of_phrasing? {s id p} h := by
    have hp : Keyed.find? Phrasing.id s.phrasings id = some p := Except.ok.inj h
    exact ⟨Keyed.key_of_find? _ hp, by rw [hp]; rfl⟩
  reps?_record {s s' p} h := by
    obtain ⟨hc, -, rfl⟩ := record_eq_ok.1 h
    obtain ⟨c, hc⟩ := Keyed.exists_find? _ hc
    rw [find?_concepts_recorded, if_pos rfl, hc]
    rfl
  attempts?_record {s s' p} id h := by
    obtain ⟨-, hp, rfl⟩ := record_eq_ok.1 h
    obtain ⟨q, hq⟩ := Keyed.exists_find? _ hp
    rw [find?_phrasings_recorded, hq]
    split <;> rfl
  logs_record {s s' p i} h hi := by
    obtain ⟨-, -, rfl⟩ := record_eq_ok.1 h
    exact List.mem_append.2 (hi.imp id List.mem_singleton.2)

end VolatileStore

namespace DatabaseStore

instance : Tally DatabaseStore where
  reps? db id := (find? ConceptTable.schema db.concepts id).bind fun r =>
    (ConceptTable.schema.word32 r ConceptTable.reps).toOption
  attempts? db id := (find? PhrasingTable.schema db.phrasings id).bind fun r =>
    (PhrasingTable.schema.word32 r PhrasingTable.attemptCount).toOption
  Logs db i := InteractionTable.row i ∈ db.interactions
  of_concept? {db id c} h := by
    obtain ⟨r, hr, hread⟩ := concept?_eq_ok_some.1 h
    obtain ⟨hid, -, -, -, -, -, hreps, -⟩ := ConceptTable.read_eq_ok.1 hread
    have hkey := Schema.hasId_of_find? hr
    rw [show ConceptTable.schema.key = ConceptTable.id from rfl, Schema.text_eq_ok.1 hid] at hkey
    refine ⟨Cell.text.inj hkey, ?_⟩
    rw [hr, Option.bind_some, hreps]
    rfl
  of_phrasing? {db id p} h := by
    obtain ⟨r, hr, hread⟩ := phrasing?_eq_ok_some.1 h
    obtain ⟨-, hid, -, -, -, -, hcount, -⟩ := PhrasingTable.read_eq_ok.1 hread
    have hkey := Schema.hasId_of_find? hr
    rw [show PhrasingTable.schema.key = PhrasingTable.id from rfl, Schema.text_eq_ok.1 hid] at hkey
    refine ⟨Cell.text.inj hkey, ?_⟩
    rw [hr, Option.bind_some, hcount]
    rfl
  reps?_record {db db' p} h := by
    obtain ⟨concepts, phrasings, hc, hconcepts, -, -, hi⟩ := record_eq_ok.1 h
    obtain ⟨-, -, -, rfl⟩ := insertInteraction_eq_ok.1 hi
    obtain ⟨r, hr⟩ := exists_find? (s := ConceptTable.schema) hc
    obtain ⟨q, hq, hfind⟩ := Schema.find?_change_self hconcepts (not_mem_memoryCells _ _) hr
    have hreps : q.get ConceptTable.reps = .ofWord p.memory.reps :=
      Schema.get_overwrite_of_mem (p := (ConceptTable.reps, .ofWord p.memory.reps)) hq
        (by simp [ConceptTable.memoryCells]) (nodup_memoryCells _ _)
    rw [hfind, Option.bind_some, Schema.word32_ofWord hreps]
    rfl
  attempts?_record {db db' p} id h := by
    obtain ⟨concepts, phrasings, -, -, hp, hphrasings, hi⟩ := record_eq_ok.1 h
    obtain ⟨-, -, -, rfl⟩ := insertInteraction_eq_ok.1 hi
    by_cases hid : id = p.phrasingId
    · subst hid
      obtain ⟨r, hr⟩ := exists_find? (s := PhrasingTable.schema) hp
      obtain ⟨q, hq, hfind⟩ := Schema.find?_change_self hphrasings (not_mem_attemptCells _ _) hr
      have hcount : q.get PhrasingTable.attemptCount = .ofWord p.attemptCount :=
        Schema.get_overwrite_of_mem (p := (PhrasingTable.attemptCount, .ofWord p.attemptCount)) hq
          (by simp) (nodup_attemptCells _ _)
      rw [if_pos rfl, hfind, Option.bind_some, Schema.word32_ofWord hcount]
      rfl
    · rw [if_neg hid, Schema.find?_change_other hphrasings (not_mem_attemptCells _ _) hid]
  logs_record {db db' p i} h hi := by
    obtain ⟨concepts, phrasings, -, -, -, -, hinsert⟩ := record_eq_ok.1 h
    obtain ⟨-, -, -, rfl⟩ := insertInteraction_eq_ok.1 hinsert
    refine List.mem_append.2 (hi.imp id fun hi => ?_)
    rw [hi]
    exact List.mem_singleton_self _

end DatabaseStore

end SpacedReview
