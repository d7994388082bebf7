import SpacedReview.Proofs.Review.Choice
import SpacedReview.Proofs.Review.Tally
import SpacedReview.Proofs.Store.Agreement
import SpacedReview.Proofs.Store.Atomicity

/-!
# What a concept can show

Which phrasings of a concept can be shown and which one the concept points at. Like the counters
these can be looked at in any store, also where other parts of a record cannot be read. A change
that spares a concept can only take phrasings away from it.

## Main definitions

- `StoreChange.Spares` — the change adds no phrasing to a concept and does not point it elsewhere
- `StoreChange.Uses` — the change is about a phrasing
- `Rota` — what the concepts of a store can show
- `Narrows` — what a concept can show is taken away, and nothing else happens to it

## Main statements

- `Narrows.of_run` — some changes that spare a concept
-/

namespace SpacedReview

namespace StoreChange

/-- The change neither replaces the concept nor points it elsewhere, gives it no phrasing, and is no
    answer. -/
def Spares (conceptId : String) : StoreChange → Prop
  | insertConcept c => c.id ≠ conceptId
  | insertPhrasing p => p.conceptId ≠ conceptId
  | setCanonical id _ _ => id ≠ conceptId
  | archivePhrasing _ _ => True
  | record _ => False

/-- The change writes a phrasing with the identifier or archives it. -/
def Uses (phrasingId : String) : StoreChange → Prop
  | insertPhrasing p => p.id = phrasingId
  | archivePhrasing id _ => id = phrasingId
  | _ => False

end StoreChange

/-- What the concepts of a store can show, and what changes do to it. -/
class Rota (σ : Type) [ReviewStore σ] [Catalogued σ] [Tally σ] where
  /-- No identifier is used twice. -/
  Distinct : σ → Prop
  /-- The concept has the phrasing, which is not retired. -/
  Lists : σ → String → String → Prop
  /-- The concept prefers the phrasing. -/
  Points : σ → String → String → Prop
  distinct_apply {store next : σ} {ch : StoreChange} :
    Distinct store → ch.apply store = .ok next → Distinct next
  points_of_due {store : σ} {now : Instant} {cs : List Concept} {c : Concept} {id : String} :
    ReviewStore.due store now none = .ok cs → c ∈ cs → c.canonicalPhrasing = some id →
      Points store c.id id
  lists_iff {store : σ} {conceptId id : String} {ps : List Phrasing} :
    ReviewStore.phrasingsOf store conceptId = .ok ps →
      (Lists store conceptId id ↔ ∃ p ∈ showable none ps, p.id = id)
  attempts?_of_mem {store : σ} {conceptId : String} {ps : List Phrasing} {p : Phrasing} :
    Distinct store → ReviewStore.phrasingsOf store conceptId = .ok ps → p ∈ ps →
      Tally.attempts? store p.id = some p.attemptCount
  belongs {store : σ} {conceptId id : String} {p : Phrasing} :
    Distinct store → Lists store conceptId id → ReviewStore.phrasing? store id = .ok (some p) →
      p.conceptId = conceptId
  lists_of_apply {store next : σ} {ch : StoreChange} {conceptId id : String} :
    ch.Spares conceptId → ch.apply store = .ok next → Lists next conceptId id →
      Lists store conceptId id ∧ Tally.attempts? next id = Tally.attempts? store id
  points_of_apply {store next : σ} {ch : StoreChange} {conceptId id : String} :
    ch.Spares conceptId → ch.apply store = .ok next → Points next conceptId id →
      Points store conceptId id
  lists_apply {store next : σ} {ch : StoreChange} {conceptId id : String} :
    ¬ ch.Uses id → ch.apply store = .ok next → Lists store conceptId id → Lists next conceptId id
  lists_of_record {store next : σ} {p : ReviewPatch} {conceptId id : String} :
    ReviewStore.record store p = .ok next → Lists next conceptId id → Lists store conceptId id
  points_of_record {store next : σ} {p : ReviewPatch} {conceptId id : String} :
    ReviewStore.record store p = .ok next → Points next conceptId id → Points store conceptId id

section Changes

variable {σ : Type} [ReviewStore σ] [Catalogued σ] [Tally σ] [Rota σ] {store mid next : σ}
  {conceptId : String}

/-- The concept prefers none of the phrasings that it can show. -/
def Unpointed (store : σ) (conceptId : String) : Prop :=
  ∀ id, Rota.Points store conceptId id → ¬ Rota.Lists store conceptId id

/-- The concept can show in `next` some of what it can show in `store`, seen as often, and prefers
    no other phrasing. -/
structure Narrows (conceptId : String) (store next : σ) : Prop where
  lists : ∀ id, Rota.Lists next conceptId id → Rota.Lists store conceptId id
  attempts : ∀ id, Rota.Lists next conceptId id →
    Tally.attempts? next id = Tally.attempts? store id
  points : ∀ id, Rota.Points next conceptId id → Rota.Points store conceptId id

namespace Narrows

theorem refl (conceptId : String) (store : σ) : Narrows conceptId store store :=
  ⟨fun _ h => h, fun _ _ => rfl, fun _ h => h⟩

theorem trans (h : Narrows conceptId store mid) (h' : Narrows conceptId mid next) :
    Narrows conceptId store next where
  lists id hid := h.lists id (h'.lists id hid)
  attempts id hid := (h'.attempts id hid).trans (h.attempts id (h'.lists id hid))
  points id hid := h.points id (h'.points id hid)

theorem unpointed (h : Narrows conceptId store next) (hstore : Unpointed store conceptId) :
    Unpointed next conceptId := by
  intro id hpoints hlists
  exact hstore id (h.points id hpoints) (h.lists id hlists)

theorem of_apply {ch : StoreChange} (hch : ch.Spares conceptId) (h : ch.apply store = .ok next) :
    Narrows conceptId store next where
  lists _ hid := (Rota.lists_of_apply hch h hid).1
  attempts _ hid := (Rota.lists_of_apply hch h hid).2
  points _ hid := Rota.points_of_apply hch h hid

/-- Changes that spare a concept only take away from what it can show. -/
theorem of_run {chs : List StoreChange} (hchs : ∀ ch ∈ chs, ch.Spares conceptId) :
    Narrows conceptId store (StoreChange.run store chs) := by
  refine StoreChange.invariant_run ?_ (refl conceptId store)
  intro ch hch mid next h happly
  exact h.trans (of_apply (hchs ch hch) happly)

end Narrows

theorem Rota.distinct_run (h : Rota.Distinct store) (chs : List StoreChange) :
    Rota.Distinct (StoreChange.run store chs) := by
  refine StoreChange.invariant_run ?_ h
  intro ch _ mid next hmid happly
  exact Rota.distinct_apply hmid happly

/-- A phrasing that some changes are not about can still be shown after them. -/
theorem Rota.lists_run {id : String} {chs : List StoreChange} (hchs : ∀ ch ∈ chs, ¬ ch.Uses id)
    (h : Rota.Lists store conceptId id) : Rota.Lists (StoreChange.run store chs) conceptId id := by
  refine StoreChange.invariant_run (P := fun s => Rota.Lists s conceptId id) ?_ h
  intro ch hch mid next hmid happly
  exact Rota.lists_apply (hchs ch hch) happly hmid

end Changes

/-! ## Volatile stores -/

namespace VolatileStore

variable {s s' : VolatileStore} {ch : StoreChange} {conceptId id : String}

/-- The concept has the phrasing, which was neither archived nor deleted. -/
def Lists (s : VolatileStore) (conceptId id : String) : Prop :=
  ∃ p ∈ s.phrasings, p.id = id ∧ p.conceptId = conceptId ∧
    p.archivedAt = none ∧ p.deletedAt = none

/-- The concept prefers the phrasing. -/
def Points (s : VolatileStore) (conceptId id : String) : Prop :=
  ∃ c ∈ s.concepts, c.id = conceptId ∧ c.canonicalPhrasing = some id

theorem points_of_due {now : Instant} {cs : List Concept} {c : Concept}
    (h : ReviewStore.due s now none = .ok cs) (hc : c ∈ cs) (hid : c.canonicalPhrasing = some id) :
    s.Points c.id id := by
  obtain rfl : s.due now none = cs := Except.ok.inj h
  have hmem : c ∈ List.mergeSort (s.concepts.filter (·.isDue now)) _ := hc
  exact ⟨c, (List.mem_filter.1 (List.mem_mergeSort.1 hmem)).1, rfl, hid⟩

theorem lists_iff {ps : List Phrasing} (h : ReviewStore.phrasingsOf s conceptId = .ok ps) :
    s.Lists conceptId id ↔ ∃ p ∈ showable none ps, p.id = id := by
  obtain rfl : s.phrasingsOf conceptId = ps := Except.ok.inj h
  have hmem (p : Phrasing) : p ∈ showable none (s.phrasingsOf conceptId) ↔
      p ∈ s.phrasings ∧ p.conceptId = conceptId ∧ p.archivedAt = none ∧ p.deletedAt = none := by
    rw [Phrasing.mem_showable, phrasingsOf, List.mem_mergeSort, List.mem_filter,
      decide_eq_true_iff, and_assoc]
  constructor
  · rintro ⟨p, hp, hid, hlisted⟩
    exact ⟨p, (hmem p).2 ⟨hp, hlisted⟩, hid⟩
  · rintro ⟨p, hp, hid⟩
    obtain ⟨hp, hlisted⟩ := (hmem p).1 hp
    exact ⟨p, hp, hid, hlisted⟩

theorem attempts?_of_mem {ps : List Phrasing} {p : Phrasing} (hs : s.Distinct)
    (h : ReviewStore.phrasingsOf s conceptId = .ok ps) (hp : p ∈ ps) :
    Tally.attempts? s p.id = some p.attemptCount := by
  obtain rfl : s.phrasingsOf conceptId = ps := Except.ok.inj h
  have hmem : p ∈ s.phrasings := (List.mem_filter.1 (List.mem_mergeSort.1 hp)).1
  show (Keyed.find? Phrasing.id s.phrasings p.id).map Phrasing.attemptCount = _
  rw [Keyed.find?_of_mem hs.phrasings hmem]
  rfl

theorem belongs {p : Phrasing} (hs : s.Distinct) (hid : s.Lists conceptId id)
    (hp : ReviewStore.phrasing? s id = .ok (some p)) : p.conceptId = conceptId := by
  obtain ⟨q, hq, rfl, hconcept, -⟩ := hid
  have hfind : Keyed.find? Phrasing.id s.phrasings q.id = some p := Except.ok.inj hp
  rw [Keyed.find?_of_mem hs.phrasings hq, Option.some.injEq] at hfind
  rw [← hfind, hconcept]

theorem lists_of_apply (hch : ch.Spares conceptId) (h : ch.apply s = .ok s')
    (hid : s'.Lists conceptId id) :
    s.Lists conceptId id ∧ Tally.attempts? s' id = Tally.attempts? s id := by
  cases ch with
  | insertConcept c =>
    obtain rfl : s.insertConcept c = s' := Except.ok.inj h
    exact ⟨hid, rfl⟩
  | insertPhrasing p =>
    obtain ⟨-, rfl⟩ := insertPhrasing_eq_ok.1 h
    obtain ⟨q, hq, rfl, hconcept, hshown⟩ := hid
    rcases Keyed.eq_or_mem_of_mem_put _ hq with rfl | ⟨hq, hne⟩
    · exact absurd hconcept hch
    · refine ⟨⟨q, hq, rfl, hconcept, hshown⟩, ?_⟩
      show (Keyed.find? _ (Keyed.put _ _ _) _).map _ = (Keyed.find? _ _ _).map _
      rw [Keyed.find?_put, if_neg hne]
  | setCanonical other o clock =>
    obtain ⟨-, rfl⟩ := setCanonical_eq_ok.1 h
    exact ⟨hid, rfl⟩
  | archivePhrasing other now =>
    obtain ⟨-, -, -, rfl⟩ := archivePhrasing_eq_ok.1 h
    obtain ⟨q, hq, rfl, hconcept, hshown⟩ := hid
    obtain ⟨p, hp, rfl⟩ := List.mem_map.1 hq
    by_cases hother : p.id = other
    · rw [if_pos hother] at hshown
      cases hshown.1
    · rw [if_neg hother] at hconcept hshown ⊢
      refine ⟨⟨p, hp, rfl, hconcept, hshown⟩, ?_⟩
      show (Keyed.find? _ (Keyed.change _ _ _ _) _).map _ = (Keyed.find? _ _ _).map _
      rw [Keyed.find?_change Phrasing.id, if_neg hother]
      intro x hid
      exact hid
  | record p => exact hch.elim

theorem points_of_apply (hch : ch.Spares conceptId) (h : ch.apply s = .ok s')
    (hid : s'.Points conceptId id) : s.Points conceptId id := by
  cases ch with
  | insertConcept c =>
    obtain rfl : s.insertConcept c = s' := Except.ok.inj h
    obtain ⟨d, hd, hconcept, hpoints⟩ := hid
    rcases Keyed.eq_or_mem_of_mem_put _ hd with rfl | ⟨hd, -⟩
    · exact absurd hconcept hch
    · exact ⟨d, hd, hconcept, hpoints⟩
  | insertPhrasing p =>
    obtain ⟨-, rfl⟩ := insertPhrasing_eq_ok.1 h
    exact hid
  | setCanonical other o clock =>
    obtain ⟨-, rfl⟩ := setCanonical_eq_ok.1 h
    obtain ⟨d, hd, hconcept, hpoints⟩ := hid
    obtain ⟨c, hc, rfl⟩ := List.mem_map.1 hd
    by_cases hother : c.id = other
    · rw [if_pos hother] at hconcept
      exact absurd (hother.symm.trans hconcept) hch
    · rw [if_neg hother] at hconcept hpoints
      exact ⟨c, hc, hconcept, hpoints⟩
  | archivePhrasing other now =>
    obtain ⟨-, -, -, rfl⟩ := archivePhrasing_eq_ok.1 h
    exact hid
  | record p => exact hch.elim

theorem lists_apply (hch : ¬ ch.Uses id) (h : ch.apply s = .ok s') (hid : s.Lists conceptId id) :
    s'.Lists conceptId id := by
  obtain ⟨q, hq, rfl, hlisted⟩ := hid
  cases ch with
  | insertConcept c =>
    obtain rfl : s.insertConcept c = s' := Except.ok.inj h
    exact ⟨q, hq, rfl, hlisted⟩
  | insertPhrasing p =>
    obtain ⟨-, rfl⟩ := insertPhrasing_eq_ok.1 h
    exact ⟨q, Keyed.mem_put_of_ne _ hq fun heq => hch heq.symm, rfl, hlisted⟩
  | setCanonical other o clock =>
    obtain ⟨-, rfl⟩ := setCanonical_eq_ok.1 h
    exact ⟨q, hq, rfl, hlisted⟩
  | archivePhrasing other now =>
    obtain ⟨-, -, -, rfl⟩ := archivePhrasing_eq_ok.1 h
    exact ⟨q, List.mem_map.2 ⟨q, hq, if_neg fun heq => hch heq.symm⟩, rfl, hlisted⟩
  | record p =>
    obtain ⟨-, -, rfl⟩ := record_eq_ok.1 h
    by_cases hother : q.id = p.phrasingId
    · exact ⟨p.onPhrasing q, Keyed.mem_change _ hq hother _, rfl, hlisted⟩
    · exact ⟨q, List.mem_map.2 ⟨q, hq, if_neg hother⟩, rfl, hlisted⟩

theorem lists_of_record {p : ReviewPatch} (h : s.record p = .ok s')
    (hid : s'.Lists conceptId id) : s.Lists conceptId id := by
  obtain ⟨-, -, rfl⟩ := record_eq_ok.1 h
  obtain ⟨q, hq, hid, hlisted⟩ := hid
  obtain ⟨x, hx, rfl⟩ := List.mem_map.1 hq
  by_cases hother : x.id = p.phrasingId
  · rw [if_pos hother] at hid hlisted
    exact ⟨x, hx, hid, hlisted⟩
  · rw [if_neg hother] at hid hlisted
    exact ⟨x, hx, hid, hlisted⟩

theorem points_of_record {p : ReviewPatch} (h : s.record p = .ok s')
    (hid : s'.Points conceptId id) : s.Points conceptId id := by
  obtain ⟨-, -, rfl⟩ := record_eq_ok.1 h
  obtain ⟨d, hd, hpoints⟩ := hid
  obtain ⟨c, hc, rfl⟩ := List.mem_map.1 hd
  by_cases hother : c.id = p.conceptId
  · rw [if_pos hother] at hpoints
    exact ⟨c, hc, hpoints⟩
  · rw [if_neg hother] at hpoints
    exact ⟨c, hc, hpoints⟩

instance : Rota VolatileStore where
  Distinct := Distinct
  Lists := Lists
  Points := Points
  distinct_apply hs h := hs.apply h
  points_of_due := points_of_due
  lists_iff := lists_iff
  attempts?_of_mem := attempts?_of_mem
  belongs := belongs
  lists_of_apply := lists_of_apply
  points_of_apply := points_of_apply
  lists_apply := lists_apply
  lists_of_record := lists_of_record
  points_of_record := points_of_record

end VolatileStore

/-! ## Databases -/

namespace DatabaseStore

variable {db db' : DatabaseStore} {ch : StoreChange} {conceptId id : String}

/-- Some row has the phrasing under the concept, and neither an archive time nor a deletion time. -/
def Lists (db : DatabaseStore) (conceptId id : String) : Prop :=
  ∃ r ∈ db.phrasings, r.get PhrasingTable.id = .text id ∧
    r.get PhrasingTable.conceptId = .text conceptId ∧
    r.get PhrasingTable.archivedAt = .null ∧ r.get PhrasingTable.deletedAt = .null

/-- The row of the concept names the phrasing. -/
def Points (db : DatabaseStore) (conceptId id : String) : Prop :=
  ∃ r ∈ db.concepts, r.get ConceptTable.id = .text conceptId ∧
    r.get ConceptTable.canonicalPhrasing = .text id

theorem points_of_due {now : Instant} {cs : List Concept} {c : Concept}
    (h : ReviewStore.due db now none = .ok cs) (hc : c ∈ cs) (hid : c.canonicalPhrasing = some id) :
    db.Points c.id id := by
  have hdue : (db.dueRows now).mapM ConceptTable.read = .ok cs := h
  obtain ⟨r, hr, hread⟩ := exists_of_mem_mapM hdue hc
  obtain ⟨hconcept, -, -, -, -, -, -, -, -, -, hpoints, -⟩ := ConceptTable.read_eq_ok.1 hread
  rw [hid] at hpoints
  exact ⟨r, (List.mem_filter.1 (List.mem_mergeSort.1 hr)).1, Schema.text_eq_ok.1 hconcept,
    Schema.text?_eq_ok_some.1 hpoints⟩

/-- The phrasings of a concept are those that are read from its rows. -/
theorem mem_phrasingsOf {ps : List Phrasing} (h : ReviewStore.phrasingsOf db conceptId = .ok ps) :
    (∀ p ∈ ps, ∃ r ∈ db.phrasings, r.get PhrasingTable.conceptId = .text conceptId ∧
      PhrasingTable.read r = .ok p) ∧
    ∀ r ∈ db.phrasings, r.get PhrasingTable.conceptId = .text conceptId →
      ∃ p ∈ ps, PhrasingTable.read r = .ok p := by
  constructor
  · intro p hp
    obtain ⟨r, hr, hread⟩ := exists_of_mem_mapM h hp
    obtain ⟨hr, hconcept⟩ := List.mem_filter.1 (List.mem_mergeSort.1 hr)
    exact ⟨r, hr, of_decide_eq_true hconcept, hread⟩
  · intro r hr hconcept
    exact exists_mem_mapM h
      (List.mem_mergeSort.2 (List.mem_filter.2 ⟨hr, decide_eq_true hconcept⟩))

theorem lists_iff {ps : List Phrasing} (h : ReviewStore.phrasingsOf db conceptId = .ok ps) :
    db.Lists conceptId id ↔ ∃ p ∈ showable none ps, p.id = id := by
  obtain ⟨hrow, hread⟩ := mem_phrasingsOf h
  constructor
  · rintro ⟨r, hr, hid, hconcept, harchived, hdeleted⟩
    obtain ⟨p, hp, hread⟩ := hread r hr hconcept
    obtain ⟨-, hpid, -, -, -, -, -, -, -, hparchived, hpdeleted⟩ := PhrasingTable.read_eq_ok.1 hread
    rw [Schema.instant?_eq_ok_none.2 harchived, Except.ok.injEq] at hparchived
    rw [Schema.instant?_eq_ok_none.2 hdeleted, Except.ok.injEq] at hpdeleted
    exact ⟨p, Phrasing.mem_showable.2 ⟨hp, hparchived.symm, hpdeleted.symm⟩,
      Cell.text.inj ((Schema.text_eq_ok.1 hpid).symm.trans hid)⟩
  · rintro ⟨p, hp, rfl⟩
    obtain ⟨hp, hnone, hnone'⟩ := Phrasing.mem_showable.1 hp
    obtain ⟨r, hr, hconcept, hread⟩ := hrow p hp
    obtain ⟨-, hpid, -, -, -, -, -, -, -, harchived, hdeleted⟩ := PhrasingTable.read_eq_ok.1 hread
    rw [hnone] at harchived
    rw [hnone'] at hdeleted
    exact ⟨r, hr, Schema.text_eq_ok.1 hpid, hconcept, Schema.instant?_eq_ok_none.1 harchived,
      Schema.instant?_eq_ok_none.1 hdeleted⟩

theorem attempts?_of_mem {ps : List Phrasing} {p : Phrasing} (hdb : db.Distinct)
    (h : ReviewStore.phrasingsOf db conceptId = .ok ps) (hp : p ∈ ps) :
    Tally.attempts? db p.id = some p.attemptCount := by
  obtain ⟨r, hr, -, hread⟩ := (mem_phrasingsOf h).1 p hp
  obtain ⟨-, hid, -, -, -, -, hcount, -⟩ := PhrasingTable.read_eq_ok.1 hread
  have hfind : find? PhrasingTable.schema db.phrasings p.id = some r :=
    find?_of_mem hdb.phrasings hr (Schema.text_eq_ok.1 hid)
  show (find? PhrasingTable.schema db.phrasings p.id).bind _ = _
  rw [hfind, Option.bind_some, hcount]
  rfl

theorem belongs {p : Phrasing} (hdb : db.Distinct) (hid : db.Lists conceptId id)
    (hp : ReviewStore.phrasing? db id = .ok (some p)) : p.conceptId = conceptId := by
  obtain ⟨q, hq, hqid, hconcept, -⟩ := hid
  obtain ⟨r, hr, hread⟩ := phrasing?_eq_ok_some.1 hp
  obtain ⟨-, -, hpconcept, -⟩ := PhrasingTable.read_eq_ok.1 hread
  have hfind : find? PhrasingTable.schema db.phrasings id = some q :=
    find?_of_mem hdb.phrasings hq hqid
  rw [hfind, Option.some.injEq] at hr
  rw [← hr] at hpconcept
  exact Cell.text.inj ((Schema.text_eq_ok.1 hpconcept).symm.trans hconcept)

/-- The attempts that a phrasing counts are read from its row. -/
theorem attempts?_congr {q r : Row 11}
    (hq : find? PhrasingTable.schema db.phrasings id = some q)
    (hr : find? PhrasingTable.schema db'.phrasings id = some r)
    (h : q.get PhrasingTable.attemptCount = r.get PhrasingTable.attemptCount) :
    Tally.attempts? db id = Tally.attempts? db' id := by
  show (find? PhrasingTable.schema db.phrasings id).bind _ =
    (find? PhrasingTable.schema db'.phrasings id).bind _
  rw [hq, hr, Option.bind_some, Option.bind_some, Schema.word32_congr h]

theorem lists_of_apply (hch : ch.Spares conceptId) (h : ch.apply db = .ok db')
    (hid : db'.Lists conceptId id) :
    db.Lists conceptId id ∧ Tally.attempts? db' id = Tally.attempts? db id := by
  cases ch with
  | insertConcept c =>
    have hinsert : db.insertConcept c = .ok db' := h
    obtain ⟨-, -, rfl⟩ := insertConcept_eq_ok.1 hinsert
    exact ⟨hid, rfl⟩
  | insertPhrasing p =>
    have hinsert : db.insertPhrasing p = .ok db' := h
    obtain ⟨-, -, rfl⟩ := insertPhrasing_eq_ok.1 hinsert
    obtain ⟨q, hq, hid, hconcept, hshown⟩ := hid
    rcases List.mem_append.1 hq with hq | hq
    · obtain ⟨r, hr⟩ := exists_find? (s := PhrasingTable.schema) (hasText_iff.2 ⟨q, hq, hid⟩)
      refine ⟨⟨q, hq, hid, hconcept, hshown⟩, attempts?_congr ?_ hr rfl⟩
      exact List.find?_append.trans (by rw [show List.find? _ _ = some r from hr]; rfl)
    · rw [List.mem_singleton.1 hq] at hconcept
      exact absurd (Cell.text.inj hconcept) hch
  | setCanonical other o clock =>
    obtain ⟨-, rows, -, rfl⟩ := changeConcept_eq_ok.1 h
    exact ⟨hid, rfl⟩
  | archivePhrasing other now =>
    obtain ⟨x, rows, hx, -, hrows, rfl⟩ := archivePhrasing_eq_ok.1 h
    obtain ⟨q, hq, hqid, hconcept, harchived, hdeleted⟩ := hid
    have hkey : PhrasingTable.schema.key ∉ [(PhrasingTable.archivedAt,
        Cell.ofInstant now)].map Prod.fst := by
      show (0 : Fin 11) ∉ [9]
      decide
    obtain ⟨r, hr, rfl | ⟨-, hrq⟩⟩ := Schema.exists_of_mem_change hrows hq
    · refine ⟨⟨q, hr, hqid, hconcept, harchived, hdeleted⟩, ?_⟩
      by_cases hother : id = other
      · subst hother
        obtain ⟨y, hy, hfind⟩ := Schema.find?_change_self hrows hkey hx
        refine attempts?_congr hfind hx (Schema.get_overwrite_of_not_mem hy ?_)
        show (6 : Fin 11) ∉ [9]
        decide
      · show (find? PhrasingTable.schema rows id).bind _ =
          (find? PhrasingTable.schema db.phrasings id).bind _
        rw [Schema.find?_change_other hrows hkey hother]
    · -- The row that was archived is not listed.
      have hcell :=
        Schema.get_overwrite_of_mem (p := (PhrasingTable.archivedAt, .ofInstant now)) hrq
          List.mem_cons_self (List.nodup_singleton _)
      rw [harchived] at hcell
      cases hcell
  | record p => exact hch.elim

theorem points_of_apply (hch : ch.Spares conceptId) (h : ch.apply db = .ok db')
    (hid : db'.Points conceptId id) : db.Points conceptId id := by
  cases ch with
  | insertConcept c =>
    have hinsert : db.insertConcept c = .ok db' := h
    obtain ⟨-, -, rfl⟩ := insertConcept_eq_ok.1 hinsert
    obtain ⟨q, hq, hconcept, hpoints⟩ := hid
    rcases List.mem_append.1 hq with hq | hq
    · exact ⟨q, hq, hconcept, hpoints⟩
    · rw [List.mem_singleton.1 hq] at hconcept
      exact absurd (Cell.text.inj hconcept) hch
  | insertPhrasing p =>
    have hinsert : db.insertPhrasing p = .ok db' := h
    obtain ⟨-, -, rfl⟩ := insertPhrasing_eq_ok.1 hinsert
    exact hid
  | setCanonical other o clock =>
    obtain ⟨-, rows, hrows, rfl⟩ := changeConcept_eq_ok.1 h
    obtain ⟨q, hq, hconcept, hpoints⟩ := hid
    obtain ⟨r, hr, rfl | ⟨hother, hrq⟩⟩ := Schema.exists_of_mem_change hrows hq
    · exact ⟨q, hr, hconcept, hpoints⟩
    · have hkey : q.get ConceptTable.id = r.get ConceptTable.id :=
        Schema.get_overwrite_of_not_mem hrq (by
          show (0 : Fin 13) ∉ [12, 4]
          decide)
      have hcell : r.get ConceptTable.id = .text other := hother
      rw [hkey, hcell] at hconcept
      exact absurd (Cell.text.inj hconcept) hch
  | archivePhrasing other now =>
    obtain ⟨r, rows, -, -, -, rfl⟩ := archivePhrasing_eq_ok.1 h
    exact hid
  | record p => exact hch.elim

theorem lists_apply (hch : ¬ ch.Uses id) (h : ch.apply db = .ok db') (hid : db.Lists conceptId id) :
    db'.Lists conceptId id := by
  obtain ⟨q, hq, hqid, hlisted⟩ := hid
  cases ch with
  | insertConcept c =>
    have hinsert : db.insertConcept c = .ok db' := h
    obtain ⟨-, -, rfl⟩ := insertConcept_eq_ok.1 hinsert
    exact ⟨q, hq, hqid, hlisted⟩
  | insertPhrasing p =>
    have hinsert : db.insertPhrasing p = .ok db' := h
    obtain ⟨-, -, rfl⟩ := insertPhrasing_eq_ok.1 hinsert
    exact ⟨q, List.mem_append_left _ hq, hqid, hlisted⟩
  | setCanonical other o clock =>
    obtain ⟨-, rows, -, rfl⟩ := changeConcept_eq_ok.1 h
    exact ⟨q, hq, hqid, hlisted⟩
  | archivePhrasing other now =>
    obtain ⟨-, rows, -, -, hrows, rfl⟩ := archivePhrasing_eq_ok.1 h
    obtain ⟨r, hr, rfl | ⟨hother, -⟩⟩ := Schema.exists_mem_change hrows hq
    · exact ⟨r, hr, hqid, hlisted⟩
    · exact absurd (Cell.text.inj (hother.symm.trans hqid)) hch
  | record p =>
    obtain ⟨concepts, phrasings, -, -, -, hphrasings, hi⟩ := record_eq_ok.1 h
    obtain ⟨-, -, -, rfl⟩ := insertInteraction_eq_ok.1 hi
    obtain ⟨r, hr, rfl | ⟨-, hqr⟩⟩ := Schema.exists_mem_change hphrasings hq
    · exact ⟨r, hr, hqid, hlisted⟩
    · have hold (d : Fin 11) (hd : d ∉ attemptedColumns) : r.get d = q.get d :=
        Schema.get_overwrite_of_not_mem hqr hd
      refine ⟨r, hr, ?_, ?_, ?_, ?_⟩
      · rw [hold _ (by decide), hqid]
      · rw [hold _ (by decide), hlisted.1]
      · rw [hold _ (by decide), hlisted.2.1]
      · rw [hold _ (by decide), hlisted.2.2]

theorem lists_of_record {p : ReviewPatch} (h : db.record p = .ok db')
    (hid : db'.Lists conceptId id) : db.Lists conceptId id := by
  obtain ⟨concepts, phrasings, -, -, -, hphrasings, hi⟩ := record_eq_ok.1 h
  obtain ⟨-, -, -, rfl⟩ := insertInteraction_eq_ok.1 hi
  obtain ⟨q, hq, hlisted⟩ := hid
  obtain ⟨r, hr, rfl | ⟨-, hrq⟩⟩ := Schema.exists_of_mem_change hphrasings hq
  · exact ⟨q, hr, hlisted⟩
  · have hold (d : Fin 11) (hd : d ∉ attemptedColumns) : q.get d = r.get d :=
      Schema.get_overwrite_of_not_mem hrq hd
    rw [hold _ (by decide), hold _ (by decide), hold _ (by decide), hold _ (by decide)] at hlisted
    exact ⟨r, hr, hlisted⟩

theorem points_of_record {p : ReviewPatch} (h : db.record p = .ok db')
    (hid : db'.Points conceptId id) : db.Points conceptId id := by
  obtain ⟨concepts, phrasings, -, hconcepts, -, -, hi⟩ := record_eq_ok.1 h
  obtain ⟨-, -, -, rfl⟩ := insertInteraction_eq_ok.1 hi
  obtain ⟨q, hq, hpoints⟩ := hid
  obtain ⟨r, hr, rfl | ⟨-, hrq⟩⟩ := Schema.exists_of_mem_change hconcepts hq
  · exact ⟨q, hr, hpoints⟩
  · have hold (d : Fin 13) (hd : d ∉ ([5, 6, 7, 8, 9, 10, 11, 4] : List (Fin 13))) :
        q.get d = r.get d :=
      Schema.get_overwrite_of_not_mem hrq hd
    rw [hold _ (by decide), hold _ (by decide)] at hpoints
    exact ⟨r, hr, hpoints⟩

instance : Rota DatabaseStore where
  Distinct := Distinct
  Lists := Lists
  Points := Points
  distinct_apply hs h := hs.apply h
  points_of_due := points_of_due
  lists_iff := lists_iff
  attempts?_of_mem := attempts?_of_mem
  belongs := belongs
  lists_of_apply := lists_of_apply
  points_of_apply := points_of_apply
  lists_apply := lists_apply
  lists_of_record := lists_of_record
  points_of_record := points_of_record

end DatabaseStore

end SpacedReview
