import Mathlib.Data.List.Nodup
import SpacedReview.Proofs.Store.Mirror

/-!
# Changes of a store

The changes that a store offers, applied one after the other to any store. No store ever holds two
records with one identifier, and a database that was filled by changes at times in the years 0 to
9999 holds the tables of a volatile store and nothing else.

## Main definitions

- `StoreChange` — one change, and `StoreChange.apply`
- `VolatileStore.Distinct`, `DatabaseStore.Distinct` — no identifier is used twice
- `VolatileStore.filledBy` — the records of a database after a change
- `DatabaseStore.Filled` — a database that was filled by changes
- `DatabaseStore.contents` — the records of a database

## Main statements

- `VolatileStore.Distinct.apply`, `DatabaseStore.Distinct.apply` — after a change
- `DatabaseStore.Filled.exists_tables` — what a filled database holds
-/

namespace SpacedReview

/-- One change of a store. -/
inductive StoreChange where
  | insertConcept (c : Concept)
  | insertPhrasing (p : Phrasing)
  | setCanonical (conceptId : String) (phrasingId : Option String) (clock : Instant)
  | archivePhrasing (id : String) (now : Instant)
  | record (p : ReviewPatch)

namespace StoreChange

/-- The store after the change. -/
def apply {σ : Type} [ReviewStore σ] [Catalogued σ] (store : σ) :
    StoreChange → Except StoreError σ
  | insertConcept c => Catalogued.insertConcept store c
  | insertPhrasing p => Catalogued.insertPhrasing store p
  | setCanonical conceptId phrasingId clock =>
    Catalogued.setCanonical store conceptId phrasingId clock
  | archivePhrasing id now => Catalogued.archivePhrasing store id now
  | record p => ReviewStore.record store p

/-- The times and the numbers of the change satisfy the predicates. -/
def Within (time : Instant → Prop) (number : Float → Prop) : StoreChange → Prop
  | insertConcept c => c.Within time number
  | insertPhrasing p => p.Within time
  | setCanonical _ _ clock => time clock
  | archivePhrasing _ now => time now
  | record p => p.Within time number

end StoreChange

/-- A record is found by its key if no other one has it. -/
theorem Keyed.find?_of_mem {α : Type} {key : α → String} {xs : List α} (h : (xs.map key).Nodup)
    {x : α} (hx : x ∈ xs) : Keyed.find? key xs (key x) = some x := by
  obtain ⟨y, hy⟩ := exists_find? key ((has_iff key).2 ⟨x, hx, rfl⟩)
  have heq : y = x := List.inj_on_of_nodup_map h (mem_of_find? key hy) hx (key_of_find? key hy)
  rw [hy, heq]

theorem MemoryState.Within.of_isNumeric {time : Instant → Prop} {number : Float → Prop}
    {m : MemoryState} (h : m.Within time number) (hnumeric : m.IsNumeric) :
    m.Within time (·.isNaN = false) :=
  ⟨hnumeric.1, hnumeric.2, h.lastReview, h.nextReview⟩

namespace VolatileStore

variable {s s' : VolatileStore}

/-! ## Identifiers -/

/-- No two concepts and no two phrasings have one identifier. -/
structure Distinct (s : VolatileStore) : Prop where
  concepts : (s.concepts.map Concept.id).Nodup
  phrasings : (s.phrasings.map Phrasing.id).Nodup

theorem distinct_empty : Distinct empty :=
  ⟨List.nodup_nil, List.nodup_nil⟩

theorem Distinct.change_concepts (h : s.Distinct) (id : String) {f : Concept → Concept}
    (hf : ∀ c, c.id = id → (f c).id = id) :
    Distinct { s with concepts := Keyed.change Concept.id s.concepts id f } := by
  refine ⟨?_, h.phrasings⟩
  show ((Keyed.change Concept.id s.concepts id f).map Concept.id).Nodup
  rw [Keyed.map_key_change _ hf]
  exact h.concepts

theorem Distinct.change_phrasings (h : s.Distinct) (id : String) {f : Phrasing → Phrasing}
    (hf : ∀ p, p.id = id → (f p).id = id) :
    Distinct { s with phrasings := Keyed.change Phrasing.id s.phrasings id f } := by
  refine ⟨h.concepts, ?_⟩
  show ((Keyed.change Phrasing.id s.phrasings id f).map Phrasing.id).Nodup
  rw [Keyed.map_key_change _ hf]
  exact h.phrasings

theorem Distinct.insertConcept (h : s.Distinct) (c : Concept) : (s.insertConcept c).Distinct :=
  ⟨Keyed.nodup_put _ h.concepts, h.phrasings⟩

theorem Distinct.put_phrasing (h : s.Distinct) (p : Phrasing) :
    Distinct { s with phrasings := Keyed.put Phrasing.id s.phrasings p } :=
  ⟨h.concepts, Keyed.nodup_put _ h.phrasings⟩

theorem Distinct.recorded (h : s.Distinct) (p : ReviewPatch) : (s.recorded p).Distinct :=
  ⟨(h.change_concepts p.conceptId fun _ => p.onConcept_id).concepts,
    (h.change_phrasings p.phrasingId fun _ => p.onPhrasing_id).phrasings⟩

theorem archivePhrasing_eq_ok {id : String} {now : Instant} :
    s.archivePhrasing id now = .ok s' ↔
      ∃ p, Keyed.find? Phrasing.id s.phrasings id = some p ∧ p.archivedAt = none ∧
        { s with phrasings := Keyed.change Phrasing.id s.phrasings id fun q =>
                   { q with archivedAt := some now } } = s' := by
  unfold archivePhrasing
  cases Keyed.find? Phrasing.id s.phrasings id with
  | none => simp
  | some p => cases hp : p.archivedAt <;> simp [hp]

theorem insertPhrasing_eq_ok {p : Phrasing} :
    s.insertPhrasing p = .ok s' ↔ Keyed.has Concept.id s.concepts p.conceptId ∧
      { s with phrasings := Keyed.put Phrasing.id s.phrasings p } = s' := by
  unfold insertPhrasing
  by_cases h : Keyed.has Concept.id s.concepts p.conceptId <;> simp [h]

theorem setCanonical_eq_ok {id : String} {o : Option String} :
    s.setCanonical id o = .ok s' ↔ Keyed.has Concept.id s.concepts id ∧
      { s with concepts := Keyed.change Concept.id s.concepts id fun c =>
                 { c with canonicalPhrasing := o } } = s' := by
  unfold setCanonical
  by_cases h : Keyed.has Concept.id s.concepts id <;> simp [h]

/-- No change uses an identifier twice. -/
theorem Distinct.apply (h : s.Distinct) {ch : StoreChange} (hch : ch.apply s = .ok s') :
    s'.Distinct := by
  cases ch with
  | insertConcept c =>
    obtain rfl : s.insertConcept c = s' := Except.ok.inj hch
    exact h.insertConcept c
  | insertPhrasing p =>
    obtain ⟨-, rfl⟩ := insertPhrasing_eq_ok.1 hch
    exact h.put_phrasing p
  | setCanonical id o clock =>
    obtain ⟨-, rfl⟩ := setCanonical_eq_ok.1 hch
    exact h.change_concepts id fun _ hc => hc
  | archivePhrasing id now =>
    obtain ⟨p, -, -, rfl⟩ := archivePhrasing_eq_ok.1 hch
    exact h.change_phrasings id fun _ hp => hp
  | record p =>
    obtain ⟨-, -, rfl⟩ := record_eq_ok.1 hch
    exact h.recorded p

/-! ## Kept records -/

theorem Kept.insertConcept (h : s.Kept) {c : Concept}
    (hc : c.Within Instant.IsMicro Binary64.IsPlain) : (s.insertConcept c).Kept :=
  ⟨Keyed.forall_mem_put _ h.concepts hc, h.phrasings, h.log⟩

theorem Kept.put_phrasing (h : s.Kept) {p : Phrasing} (hp : p.Within Instant.IsMicro) :
    Kept { s with phrasings := Keyed.put Phrasing.id s.phrasings p } :=
  ⟨h.concepts, Keyed.forall_mem_put _ h.phrasings hp, h.log⟩

theorem Kept.pointed (h : s.Kept) (id : String) (o : Option String) {clock : Instant}
    (hclock : clock.HasPlainYear) : (s.pointed id o clock).Kept := by
  refine ⟨Keyed.forall_mem_change _ h.concepts fun c hc => ?_, h.phrasings, h.log⟩
  exact ⟨hc.memory, hc.createdAt, Instant.isMicro_cut hclock⟩

theorem Kept.archived (h : s.Kept) (id : String) {now : Instant} (hnow : now.IsMicro) :
    Kept { s with phrasings := Keyed.change Phrasing.id s.phrasings id fun q =>
                    { q with archivedAt := some now } } := by
  refine ⟨h.concepts, Keyed.forall_mem_change _ h.phrasings fun p hp => ?_, h.log⟩
  exact ⟨hp.lastAttemptedAt, hp.createdAt, fun t ht => Option.some.inj ht ▸ hnow, hp.deletedAt⟩

theorem Kept.recorded (h : s.Kept) {p : ReviewPatch}
    (hp : p.Within Instant.IsMicro Binary64.IsPlain)
    (helapsed : p.interaction.elapsedMs.toNat ≤ InteractionTable.longestElapsed) :
    (s.recorded p).Kept := by
  refine ⟨Keyed.forall_mem_change _ h.concepts fun c hc => ?_,
    Keyed.forall_mem_change _ h.phrasings fun q hq => ?_, fun i hi => ?_⟩
  · exact ⟨hp.memory, hc.createdAt, hp.attemptedAt⟩
  · exact ⟨fun t ht => Option.some.inj ht ▸ hp.lastAttemptedAt, hq.createdAt, hq.archivedAt,
      hq.deletedAt⟩
  · rcases List.mem_append.1 hi with hi | hi
    · exact h.log i hi
    · rw [List.mem_singleton.1 hi]
      exact ⟨hp.attemptedAt, helapsed⟩

theorem elapsedMs_kept_le (i : Interaction) :
    i.kept.elapsedMs.toNat ≤ InteractionTable.longestElapsed := by
  show (UInt64.ofNat (min i.elapsedMs.toNat InteractionTable.longestElapsed)).toNat ≤ _
  have hlt := i.elapsedMs.toNat_lt
  rw [UInt64.toNat_ofNat_of_lt' (by simp only [UInt64.size]; omega)]
  exact Nat.min_le_right _ _

theorem within_kept_patch {p : ReviewPatch} {number : Float → Prop}
    (h : p.Within Instant.HasPlainYear number) (hnumeric : p.memory.IsNumeric) :
    p.kept.Within Instant.IsMicro Binary64.IsPlain :=
  ⟨MemoryState.within_kept (h.memory.of_isNumeric hnumeric), Instant.isMicro_cut h.lastAttemptedAt,
    Instant.isMicro_cut h.attemptedAt⟩

/-- The records of a database after a change that succeeds. -/
def filledBy (s : VolatileStore) : StoreChange → VolatileStore
  | .insertConcept c => s.insertConcept c.kept
  | .insertPhrasing p => { s with phrasings := Keyed.put Phrasing.id s.phrasings p.kept }
  | .setCanonical id o clock => s.pointed id o clock
  | .archivePhrasing id now =>
    { s with phrasings := Keyed.change Phrasing.id s.phrasings id fun q =>
               { q with archivedAt := some now.cut } }
  | .record p => s.recorded p.kept

/-- A change of the tables of a volatile store leads to the tables of a volatile store, and all that
    it has written as numbers are numbers. -/
theorem tables_eq_of_apply (hd : s.Distinct) {ch : StoreChange} {db : DatabaseStore}
    (hch : ch.apply s.tables = .ok db) :
    (s.filledBy ch).Distinct ∧ (s.filledBy ch).tables = db ∧
      ch.Within (fun _ => True) (·.isNaN = false) := by
  cases ch with
  | insertConcept c =>
    have hinsert : s.tables.insertConcept c = .ok db := hch
    obtain ⟨hnumeric, -, rfl⟩ := insertConcept_tables_eq_ok.1 hinsert
    exact ⟨hd.insertConcept c.kept, rfl,
      ⟨⟨hnumeric.1, hnumeric.2, fun _ _ => trivial, trivial⟩, trivial, trivial⟩⟩
  | insertPhrasing p =>
    have hinsert : s.tables.insertPhrasing p = .ok db := hch
    obtain ⟨-, -, rfl⟩ := insertPhrasing_tables_eq_ok.1 hinsert
    exact ⟨hd.put_phrasing p.kept, rfl,
      ⟨fun _ _ => trivial, trivial, fun _ _ => trivial, fun _ _ => trivial⟩⟩
  | setCanonical id o clock =>
    have hset : s.tables.setCanonical id o clock = .ok db := hch
    rw [setCanonical_tables] at hset
    split at hset
    · exact ⟨hd.change_concepts id fun _ hc => hc, Except.ok.inj hset, trivial⟩
    · simp at hset
  | archivePhrasing id now =>
    have harchive : s.tables.archivePhrasing id now = .ok db := hch
    rw [archivePhrasing_tables, map_eq_ok] at harchive
    obtain ⟨s', hs', rfl⟩ := harchive
    obtain ⟨p, -, -, rfl⟩ := archivePhrasing_eq_ok.1 hs'
    exact ⟨hd.change_phrasings id fun _ hp => hp, rfl, trivial⟩
  | record p =>
    have hrecord : s.tables.record p = .ok db := hch
    obtain ⟨-, -, hnumeric, -, -, -, rfl⟩ := record_tables_eq_ok.1 hrecord
    exact ⟨hd.recorded p.kept, rfl,
      ⟨⟨hnumeric.1, hnumeric.2, fun _ _ => trivial, trivial⟩, trivial, trivial⟩⟩

/-- A database keeps as it is what it has made of numbers and of times in the years 0 to 9999. -/
theorem Kept.filledBy (h : s.Kept) {ch : StoreChange} {number : Float → Prop}
    (hwithin : ch.Within Instant.HasPlainYear number)
    (hnumeric : ch.Within (fun _ => True) (·.isNaN = false)) : (s.filledBy ch).Kept := by
  cases ch with
  | insertConcept c =>
    have hc : c.Within Instant.HasPlainYear (·.isNaN = false) :=
      ⟨hwithin.memory.of_isNumeric ⟨hnumeric.memory.stability, hnumeric.memory.difficulty⟩,
        hwithin.createdAt, hwithin.updatedAt⟩
    exact h.insertConcept (Concept.within_kept hc)
  | insertPhrasing p => exact h.put_phrasing (Phrasing.within_kept hwithin)
  | setCanonical id o clock => exact h.pointed id o hwithin
  | archivePhrasing id now => exact h.archived id (Instant.isMicro_cut hwithin)
  | record p =>
    exact h.recorded (within_kept_patch hwithin
      ⟨hnumeric.memory.stability, hnumeric.memory.difficulty⟩) (elapsedMs_kept_le _)

theorem tables_filledBy (h : s.Kept) (hd : s.Distinct) {ch : StoreChange}
    {number : Float → Prop} {db : DatabaseStore} (hwithin : ch.Within Instant.HasPlainYear number)
    (hch : ch.apply s.tables = .ok db) :
    (s.filledBy ch).Kept ∧ (s.filledBy ch).Distinct ∧ (s.filledBy ch).tables = db := by
  obtain ⟨hd', htables, hnumeric⟩ := tables_eq_of_apply hd hch
  exact ⟨h.filledBy hwithin hnumeric, hd', htables⟩

end VolatileStore

theorem Cell.text?_eq_some {v : Cell} {x : String} : v.text? = some x ↔ v = .text x := by
  cases v <;> simp [text?]

namespace DatabaseStore

/-! ## Identifiers of rows -/

/-- No two rows of concepts have one identifier, and no two rows of phrasings have one. -/
structure Distinct (db : DatabaseStore) : Prop where
  concepts : (db.concepts.map fun r => (r.get ConceptTable.id).text?).Nodup
  phrasings : (db.phrasings.map fun r => (r.get PhrasingTable.id).text?).Nodup

variable {db db' : DatabaseStore}

theorem insertConcept_eq_ok {c : Concept} :
    db.insertConcept c = .ok db' ↔
      c.memory.IsNumeric ∧ (∀ q ∈ db.concepts, q.get ConceptTable.id ≠ .text c.id) ∧
      { db with concepts := db.concepts ++ [ConceptTable.row c.kept] } = db' := by
  have hkey : ConceptTable.schema.key = ConceptTable.id := rfl
  have hid : (ConceptTable.row c.kept).get ConceptTable.id = .text c.id := rfl
  simp only [insertConcept, Schema.insert, ConceptTable.fit_row, bind_eq_ok, ite_throw_eq_ok,
    ConceptTable.complete_storedRow_eq_ok, hkey, pure, Except.pure, Except.ok.injEq]
  constructor
  · rintro ⟨_, ⟨_, ⟨hnumeric, rfl⟩, hnew, rfl⟩, rfl⟩
    exact ⟨hnumeric, by simpa [hid] using hnew, rfl⟩
  · rintro ⟨hnumeric, hnew, rfl⟩
    exact ⟨_, ⟨_, ⟨hnumeric, rfl⟩, by simpa [hid] using hnew, rfl⟩, rfl⟩

theorem insertPhrasing_eq_ok {p : Phrasing} :
    db.insertPhrasing p = .ok db' ↔
      (∀ q ∈ db.phrasings, q.get PhrasingTable.id ≠ .text p.id) ∧
      hasText db.concepts ConceptTable.id p.conceptId ∧
      { db with phrasings := db.phrasings ++ [PhrasingTable.row p] } = db' := by
  have hkey : PhrasingTable.schema.key = PhrasingTable.id := rfl
  have hid : (PhrasingTable.row p).get PhrasingTable.id = .text p.id := rfl
  simp only [insertPhrasing, Schema.insert, PhrasingTable.fit_row, bind_eq_ok, ite_throw_eq_ok,
    Except.ok.injEq, exists_eq_left', hkey, hid, pure, Except.pure]
  simp

theorem archivePhrasing_eq_ok {id : String} {now : Instant} :
    db.archivePhrasing id now = .ok db' ↔
      ∃ r rows, find? PhrasingTable.schema db.phrasings id = some r ∧
        r.get PhrasingTable.archivedAt = .null ∧
        PhrasingTable.schema.change db.phrasings id
          [(PhrasingTable.archivedAt, .ofInstant now)] = .ok rows ∧
        { db with phrasings := rows } = db' := by
  unfold archivePhrasing
  cases hfind : find? PhrasingTable.schema db.phrasings id with
  | none => simp
  | some r =>
    have hhas : hasText db.phrasings PhrasingTable.id id :=
      hasText_iff.2 ⟨r, List.mem_of_find?_eq_some hfind, Schema.hasId_of_find? hfind⟩
    by_cases hr : r.get PhrasingTable.archivedAt = .null
    · simp [hr, hhas, changePhrasing_eq_ok]
    · simp [hr]

theorem map_text_of_map_get {n : Nat} {rows rows' : List (Row n)} {c : Fin n}
    (h : rows'.map (fun r => r.get c) = rows.map fun r => r.get c) :
    rows'.map (fun r => (r.get c).text?) = rows.map fun r => (r.get c).text? := by
  have hmap := congrArg (List.map Cell.text?) h
  rwa [List.map_map, List.map_map] at hmap

theorem nodup_text_concat {n : Nat} {rows : List (Row n)} {r : Row n} {c : Fin n} {id : String}
    (h : (rows.map fun r => (r.get c).text?).Nodup) (hid : r.get c = .text id)
    (hnew : ∀ q ∈ rows, q.get c ≠ .text id) :
    ((rows ++ [r]).map fun r => (r.get c).text?).Nodup := by
  rw [List.map_append, List.nodup_append]
  refine ⟨h, List.nodup_singleton _, ?_⟩
  intro k hk l hl heq
  obtain ⟨q, hq, rfl⟩ := List.mem_map.1 hk
  rw [List.map_singleton, List.mem_singleton, hid] at hl
  exact hnew q hq (Cell.text?_eq_some.1 (heq.trans hl))

/-- No change gives two rows one identifier. -/
theorem Distinct.apply (h : db.Distinct) {ch : StoreChange} (hch : ch.apply db = .ok db') :
    db'.Distinct := by
  cases ch with
  | insertConcept c =>
    have hinsert : db.insertConcept c = .ok db' := hch
    obtain ⟨-, hnew, rfl⟩ := insertConcept_eq_ok.1 hinsert
    exact ⟨nodup_text_concat h.concepts rfl hnew, h.phrasings⟩
  | insertPhrasing p =>
    have hinsert : db.insertPhrasing p = .ok db' := hch
    obtain ⟨hnew, -, rfl⟩ := insertPhrasing_eq_ok.1 hinsert
    exact ⟨h.concepts, nodup_text_concat h.phrasings rfl hnew⟩
  | setCanonical id o clock =>
    obtain ⟨-, rows, hrows, rfl⟩ := changeConcept_eq_ok.1 hch
    have hkeys := map_text_of_map_get (Schema.map_key_change hrows (by
      show (0 : Fin 13) ∉ [12, 4]
      decide))
    refine ⟨?_, h.phrasings⟩
    show (rows.map fun r => (r.get ConceptTable.schema.key).text?).Nodup
    rw [hkeys]
    exact h.concepts
  | archivePhrasing id now =>
    obtain ⟨r, rows, -, -, hrows, rfl⟩ := archivePhrasing_eq_ok.1 hch
    have hkeys := map_text_of_map_get (Schema.map_key_change hrows (by
      show (0 : Fin 11) ∉ [9]
      decide))
    refine ⟨h.concepts, ?_⟩
    show (rows.map fun r => (r.get PhrasingTable.schema.key).text?).Nodup
    rw [hkeys]
    exact h.phrasings
  | record p =>
    obtain ⟨concepts, phrasings, -, hconcepts, -, hphrasings, hi⟩ := record_eq_ok.1 hch
    obtain ⟨-, -, -, rfl⟩ := insertInteraction_eq_ok.1 hi
    have hckeys := map_text_of_map_get (Schema.map_key_change hconcepts (not_mem_memoryCells _ _))
    have hpkeys := map_text_of_map_get (Schema.map_key_change hphrasings (not_mem_attemptCells _ _))
    constructor
    · show (concepts.map fun r => (r.get ConceptTable.schema.key).text?).Nodup
      rw [hckeys]
      exact h.concepts
    · show (phrasings.map fun r => (r.get PhrasingTable.schema.key).text?).Nodup
      rw [hpkeys]
      exact h.phrasings

/-- A row is found by its identifier if no other one has it. -/
theorem find?_of_mem {n : Nat} {s : Schema n} {rows : List (Row n)}
    (h : (rows.map fun r => (r.get s.key).text?).Nodup) {r : Row n} {id : String} (hr : r ∈ rows)
    (hid : r.get s.key = .text id) : find? s rows id = some r := by
  obtain ⟨q, hq⟩ := exists_find? (hasText_iff.2 ⟨r, hr, hid⟩)
  have heq : q = r := by
    refine List.inj_on_of_nodup_map h (List.mem_of_find?_eq_some hq) hr ?_
    rw [Schema.hasId_of_find? hq, hid]
  rw [hq, heq]

/-! ## Databases that were filled -/

/-- A database that was filled by its own changes, at times in the years 0 to 9999. -/
inductive Filled : DatabaseStore → Prop where
  | empty : Filled .empty
  | change {db db' : DatabaseStore} {ch : StoreChange} :
      Filled db → ch.Within Instant.HasPlainYear (fun _ => True) → ch.apply db = .ok db' →
      Filled db'

/-- The records of a database. -/
def contents (db : DatabaseStore) : Except StoreError VolatileStore := do
  return {
    concepts := ← db.concepts.mapM ConceptTable.read
    phrasings := ← db.phrasings.mapM PhrasingTable.read
    log := ← db.interactions.mapM InteractionTable.read }

theorem contents_tables {s : VolatileStore} (h : s.Kept) : s.tables.contents = .ok s := by
  have hconcepts : s.tables.concepts.mapM ConceptTable.read = .ok s.concepts :=
    mapM_map_ok fun c hc => ConceptTable.read_row (h.concepts c hc)
  have hphrasings : s.tables.phrasings.mapM PhrasingTable.read = .ok s.phrasings :=
    mapM_map_ok fun p hp => PhrasingTable.read_row (h.phrasings p hp)
  have hlog : s.tables.interactions.mapM InteractionTable.read = .ok s.log :=
    mapM_map_ok fun i hi => VolatileStore.read_row_of_kept (h.log i hi)
  rw [contents, hconcepts, hphrasings, hlog]
  rfl

theorem Filled.exists_tables {db : DatabaseStore} (h : db.Filled) :
    ∃ s : VolatileStore, s.Kept ∧ s.Distinct ∧ s.tables = db := by
  induction h with
  | empty => exact ⟨.empty, VolatileStore.kept_empty, VolatileStore.distinct_empty, rfl⟩
  | change _ hwithin hch ih =>
    obtain ⟨s, hkept, hdistinct, rfl⟩ := ih
    exact ⟨_, VolatileStore.tables_filledBy hkept hdistinct hwithin hch⟩

end DatabaseStore

end SpacedReview
