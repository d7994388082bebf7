import SpacedReview.Proofs.Store.Kept
import SpacedReview.Proofs.Store.Volatile

/-!
# Databases that mirror a volatile store

The tables of a volatile store are the rows of its records. If a database keeps each of the records
as it is, then it answers every question about these tables as the volatile store does, and every
change of it leads to the tables of a changed volatile store.

## Main definitions

- `VolatileStore.tables` — the database with the rows of all records
- `VolatileStore.Kept` — the records are kept by a database as they are

## Main statements

- `VolatileStore.due_tables`, `phrasingsOf_tables`, `recent_tables`, `stats_tables` — questions
- `VolatileStore.insertConcept_tables`, `insertPhrasing_tables`, `setCanonical_tables`,
  `archivePhrasing_tables`, `record_tables` — changes
-/

namespace SpacedReview

/-! ## Lists of rows -/

theorem mapM_map_ok {ε α β : Type} {f : β → Except ε α} {g : α → β} {xs : List α}
    (h : ∀ x ∈ xs, f (g x) = .ok x) : (xs.map g).mapM f = .ok xs := by
  rw [mapM_eq_ok, List.forall₂_map_left_iff, List.forall₂_same]
  exact h

theorem filter_map_of {α β : Type} {f : α → β} {p : β → Bool} {q : α → Bool} {xs : List α}
    (h : ∀ x ∈ xs, p (f x) = q x) : (xs.map f).filter p = (xs.filter q).map f := by
  have hcomp : ∀ x ∈ xs, (p ∘ f) x = q x := h
  rw [List.filter_map, List.filter_congr hcomp]

theorem countP_map_of {α β : Type} {f : α → β} {p : β → Bool} {q : α → Bool} {xs : List α}
    (h : ∀ x ∈ xs, p (f x) = q x) : (xs.map f).countP p = xs.countP q := by
  rw [List.countP_eq_length_filter, filter_map_of h, List.length_map, List.countP_eq_length_filter]

theorem find?_map_row {n : Nat} {α : Type} {s : Schema n} {key : α → String} {row : α → Row n}
    (h : ∀ x, (row x).get s.key = .text (key x)) (xs : List α) (id : String) :
    DatabaseStore.find? s (xs.map row) id = (Keyed.find? key xs id).map row := by
  have hid : (fun r => s.hasId r id) ∘ row = fun x => decide (key x = id) := by
    funext x
    simp [Schema.hasId, h]
  rw [DatabaseStore.find?, List.find?_map, hid, Keyed.find?]

theorem hasText_map_row {n : Nat} {α : Type} {c : Fin n} {key : α → String} {row : α → Row n}
    (h : ∀ x, (row x).get c = .text (key x)) (xs : List α) (id : String) :
    DatabaseStore.hasText (xs.map row) c id = Keyed.has key xs id := by
  have hid : (fun r : Row n => decide (r.get c = .text id)) ∘ row =
      fun x => decide (key x = id) := by
    funext x
    simp [h]
  rw [DatabaseStore.hasText, List.any_map, hid, Keyed.has]

/-- A record is inserted if its row fits and its key is new. -/
theorem insert_map_row_eq_ok {n : Nat} {α : Type} {s : Schema n} {key : α → String}
    {row : α → Row n} {fits : Prop} {xs : List α} {y : α} {r : Row n} {rows : List (Row n)}
    (hkey : ∀ x, (row x).get s.key = .text (key x))
    (hfit : ∀ q, s.fit r = .ok q ↔ fits ∧ row y = q) :
    s.insert (xs.map row) r = .ok rows ↔
      fits ∧ ¬ Keyed.has key xs (key y) ∧ (xs ++ [y]).map row = rows := by
  have hnew : ¬ ((xs.map row).any fun q => q.get s.key = (row y).get s.key ∧
      (row y).get s.key ≠ .null) ↔ ¬ Keyed.has key xs (key y) := by
    simp [Keyed.has_iff, hkey]
  simp only [Schema.insert, bind_eq_ok, ite_throw_eq_ok, hfit, pure, Except.pure, Except.ok.injEq]
  constructor
  · rintro ⟨_, ⟨hfits, rfl⟩, hq, rfl⟩
    exact ⟨hfits, hnew.1 hq, by simp⟩
  · rintro ⟨hfits, hq, rfl⟩
    exact ⟨_, ⟨hfits, rfl⟩, hnew.2 hq, by simp⟩

/-- Overwriting cells in the row of a record is changing the record. -/
theorem change_map_row {n : Nat} {α : Type} {s : Schema n} {key : α → String} {row : α → Row n}
    {xs : List α} {id : String} {cells : List (Fin n × Cell)} {f : α → α}
    (hkey : ∀ x, (row x).get s.key = .text (key x))
    (hcells : ∀ x ∈ xs, s.overwrite (row x) cells = .ok (row (f x))) :
    s.change (xs.map row) id cells = .ok ((Keyed.change key xs id f).map row) := by
  rw [Schema.change, Keyed.change, mapM_eq_ok, List.map_map, List.forall₂_map_left_iff,
    List.forall₂_map_right_iff, List.forall₂_same]
  intro x hx
  have hid : s.hasId (row x) id ↔ key x = id := by simp [Schema.hasId, hkey]
  by_cases h : key x = id
  · rw [if_pos (hid.2 h), hcells x hx, Function.comp_apply, if_pos h]
  · rw [if_neg (hid.not.2 h), Function.comp_apply, if_neg h]

namespace VolatileStore

/-- The rows of all records. -/
def tables (s : VolatileStore) : DatabaseStore where
  concepts := s.concepts.map ConceptTable.row
  phrasings := s.phrasings.map PhrasingTable.row
  interactions := s.log.map InteractionTable.row

/-- A database keeps every record as it is. -/
structure Kept (s : VolatileStore) : Prop where
  concepts : ∀ c ∈ s.concepts, c.Within Instant.IsMicro Binary64.IsPlain
  phrasings : ∀ p ∈ s.phrasings, p.Within Instant.IsMicro
  log : ∀ i ∈ s.log, i.attemptedAt.IsMicro ∧
    i.elapsedMs.toNat ≤ InteractionTable.longestElapsed

theorem kept_empty : Kept empty := by
  constructor <;> simp [empty]

variable {s : VolatileStore} {now : Instant} {number : Float → Prop}

/-! ## Cells -/

theorem isDue_row {c : Concept} (hc : c.Within Instant.IsMicro number) (hnow : now.HasPlainYear) :
    DatabaseStore.isDue now (ConceptTable.row c) = c.isDue now := by
  -- Cutting the time of the question changes nothing, as the next review is a whole microsecond.
  have hstamp : c.memory.nextReview.microStamp ≤ now.microStamp ↔ c.memory.nextReview ≤ now := by
    rw [Instant.microStamp_le_iff hc.memory.nextReview.1 hnow, Instant.cut_le_cut_iff,
      Instant.cut_of_isMicro hc.memory.nextReview]
  show decide (c.memory.nextReview.microStamp ≤ now.microStamp) = decide _
  rw [decide_eq_decide]
  exact hstamp

theorem hasState_row (state : LearningState) (c : Concept) :
    DatabaseStore.hasState state (ConceptTable.row c) = decide (c.memory.state = state) := by
  have hname : c.memory.state.name = state.name ↔ c.memory.state = state := by
    cases c.memory.state <;> cases state <;> decide
  show decide (Cell.text c.memory.state.name = .text state.name) = _
  rw [decide_eq_decide, Cell.text.injEq]
  exact hname

theorem compare_stamps {a b : Instant} (ha : a.IsMicro) (hb : b.IsMicro) :
    compare (some a.microStamp) (some b.microStamp) = compare a b := by
  show compare a.microStamp b.microStamp = _
  rw [Instant.compare_microStamp ha.1 hb.1, Instant.cut_of_isMicro ha, Instant.cut_of_isMicro hb]

theorem compareDue_row {c d : Concept} (hc : c.Within Instant.IsMicro number)
    (hd : d.Within Instant.IsMicro number) :
    DatabaseStore.compareDue (ConceptTable.row c) (ConceptTable.row d) = compareDue c d := by
  rw [DatabaseStore.compareDue, hasState_row, hasState_row]
  show ((compare d.isNew c.isNew).then (compare (some c.memory.nextReview.microStamp)
    (some d.memory.nextReview.microStamp))).then (compare c.id d.id) = _
  rw [compare_stamps hc.memory.nextReview hd.memory.nextReview, compareDue]

theorem compareAge_row {p q : Phrasing} (hp : p.Within Instant.IsMicro)
    (hq : q.Within Instant.IsMicro) :
    DatabaseStore.compareAge (PhrasingTable.row p) (PhrasingTable.row q) = compareAge p q := by
  show (compare (some p.createdAt.microStamp) (some q.createdAt.microStamp)).then
    (compare p.id q.id) = _
  rw [compare_stamps hp.createdAt hq.createdAt, compareAge]

theorem read_row_of_kept {i : Interaction} (h : i.attemptedAt.IsMicro ∧
    i.elapsedMs.toNat ≤ InteractionTable.longestElapsed) :
    InteractionTable.read (InteractionTable.row i) = .ok i := by
  rw [InteractionTable.read_row h.1.1, Interaction.kept_of_isMicro h.1 h.2]

/-! ## Questions -/

/-- The concept with an identifier only depends on how the concepts are kept. -/
theorem concept?_of_concepts (h : ∀ c ∈ s.concepts, c.Within Instant.IsMicro number) (id : String) :
    ReviewStore.concept? s.tables id = .ok (Keyed.find? Concept.id s.concepts id) := by
  have hfind : DatabaseStore.find? ConceptTable.schema s.tables.concepts id =
      (Keyed.find? Concept.id s.concepts id).map ConceptTable.row :=
    find?_map_row (fun _ => rfl) s.concepts id
  show DatabaseStore.concept? s.tables id = .ok (Keyed.find? Concept.id s.concepts id)
  rw [DatabaseStore.concept?, hfind]
  cases hc : Keyed.find? Concept.id s.concepts id with
  | none => rfl
  | some c =>
    show (ConceptTable.read (ConceptTable.row c)).map some = _
    rw [ConceptTable.read_row (h c (Keyed.mem_of_find? _ hc))]
    rfl

theorem concept?_tables (h : s.Kept) (id : String) :
    ReviewStore.concept? s.tables id = ReviewStore.concept? s id :=
  concept?_of_concepts h.concepts id

theorem phrasing?_tables (h : s.Kept) (id : String) :
    ReviewStore.phrasing? s.tables id = ReviewStore.phrasing? s id := by
  have hfind : DatabaseStore.find? PhrasingTable.schema s.tables.phrasings id =
      (Keyed.find? Phrasing.id s.phrasings id).map PhrasingTable.row :=
    find?_map_row (fun _ => rfl) s.phrasings id
  show DatabaseStore.phrasing? s.tables id = .ok (Keyed.find? Phrasing.id s.phrasings id)
  rw [DatabaseStore.phrasing?, hfind]
  cases hp : Keyed.find? Phrasing.id s.phrasings id with
  | none => rfl
  | some p =>
    show (PhrasingTable.read (PhrasingTable.row p)).map some = _
    rw [PhrasingTable.read_row (h.phrasings p (Keyed.mem_of_find? _ hp))]
    rfl

theorem dueRows_tables (h : ∀ c ∈ s.concepts, c.Within Instant.IsMicro number)
    (hnow : now.HasPlainYear) :
    s.tables.dueRows now = (s.due now none).map ConceptTable.row := by
  have hfilter : (s.concepts.map ConceptTable.row).filter (DatabaseStore.isDue now) =
      (s.concepts.filter (·.isDue now)).map ConceptTable.row :=
    filter_map_of fun c hc => isDue_row (h c hc) hnow
  rw [DatabaseStore.dueRows, tables, hfilter]
  refine (List.map_mergeSort fun c hc d hd => ?_).symm
  rw [compareDue_row (h c (List.mem_of_mem_filter hc)) (h d (List.mem_of_mem_filter hd))]

theorem mem_of_mem_due {c : Concept} (h : c ∈ s.due now none) : c ∈ s.concepts :=
  List.mem_of_mem_filter (List.mem_mergeSort.1 h)

/-- The due concepts only depend on how the concepts are kept. -/
theorem due_eq_ok_of_concepts (h : ∀ c ∈ s.concepts, c.Within Instant.IsMicro number)
    (hnow : now.HasPlainYear) (limit : Option Nat) :
    DatabaseStore.due s.tables now limit = .ok (s.due now limit) := by
  have hread (xs : List Concept) (hxs : xs ⊆ s.due now none) :
      (xs.map ConceptTable.row).mapM ConceptTable.read = .ok xs :=
    mapM_map_ok fun c hc => ConceptTable.read_row (h c (mem_of_mem_due (hxs hc)))
  simp only [DatabaseStore.due, dueRows_tables h hnow]
  cases limit with
  | none => exact hread _ (List.Subset.refl _)
  | some n =>
    simp only [← List.map_take]
    exact hread _ (List.take_subset n _)

theorem due_tables (h : s.Kept) (hnow : now.HasPlainYear) (limit : Option Nat) :
    ReviewStore.due s.tables now limit = ReviewStore.due s now limit :=
  due_eq_ok_of_concepts h.concepts hnow limit

theorem phrasingsOf_tables (h : s.Kept) (id : String) :
    ReviewStore.phrasingsOf s.tables id = ReviewStore.phrasingsOf s id := by
  have hfilter : (s.phrasings.map PhrasingTable.row).filter
      (fun r => r.get PhrasingTable.conceptId = .text id) =
        (s.phrasings.filter (·.conceptId = id)).map PhrasingTable.row := by
    refine filter_map_of fun p _ => ?_
    show decide (Cell.text p.conceptId = .text id) = _
    rw [decide_eq_decide, Cell.text.injEq]
  show DatabaseStore.phrasingsOf s.tables id = .ok (s.phrasingsOf id)
  rw [DatabaseStore.phrasingsOf, tables, hfilter, phrasingsOf,
    ← List.map_mergeSort (f := PhrasingTable.row) (r := fun p q => decide (compareAge p q ≠ .gt))]
  · exact mapM_map_ok fun p hp =>
      PhrasingTable.read_row (h.phrasings p (List.mem_of_mem_filter (List.mem_mergeSort.1 hp)))
  · intro p hp q hq
    rw [compareAge_row (h.phrasings p (List.mem_of_mem_filter hp))
      (h.phrasings q (List.mem_of_mem_filter hq))]

theorem recent_tables (h : s.Kept) (id : String) (limit : Nat) :
    ReviewStore.recent s.tables id limit = ReviewStore.recent s id limit := by
  have hfilter : ((s.log.map InteractionTable.row).filter
      (fun r => r.get InteractionTable.phrasingId = .text id)).reverse =
        ((s.log.filter (·.phrasingId = id)).reverse).map InteractionTable.row := by
    rw [filter_map_of (q := fun i : Interaction => decide (i.phrasingId = id)), List.map_reverse]
    intro i _
    show decide (Cell.text i.phrasingId = .text id) = _
    rw [decide_eq_decide, Cell.text.injEq]
  have hlog {i : Interaction} (hi : i ∈ (s.log.filter (·.phrasingId = id)).reverse) : i ∈ s.log :=
    List.mem_of_mem_filter (List.mem_reverse.1 hi)
  show DatabaseStore.recent s.tables id limit = .ok (s.recent id limit)
  rw [DatabaseStore.recent, DatabaseStore.recentRows, tables, hfilter, recent,
    ← List.map_mergeSort (f := InteractionTable.row)
      (r := fun i j => decide (compare j.attemptedAt i.attemptedAt ≠ .gt)), ← List.map_take]
  · exact mapM_map_ok fun i hi => read_row_of_kept
      (h.log i (hlog (List.mem_mergeSort.1 (List.mem_of_mem_take hi))))
  · intro i hi j hj
    rw [← compare_stamps (h.log j (hlog hj)).1 (h.log i (hlog hi)).1]
    rfl

theorem stats_tables (h : s.Kept) (hnow : now.HasPlainYear) :
    ReviewStore.stats s.tables now = ReviewStore.stats s now := by
  have hdue : (s.concepts.map ConceptTable.row).countP (DatabaseStore.isDue now) =
      s.concepts.countP (·.isDue now) :=
    countP_map_of fun c hc => isDue_row (h.concepts c hc) hnow
  have hstate (state : LearningState) : s.tables.countState state = s.countState state := by
    rw [DatabaseStore.countState, countState, tables,
      countP_map_of fun c _ => hasState_row state c]
  show Except.ok (s.tables.stats now) = .ok (s.stats now)
  rw [DatabaseStore.stats, stats, hstate, hstate, hstate, hstate]
  simp only [tables, List.length_map, hdue]

/-! ## Changes -/

theorem hasText_concepts (s : VolatileStore) (id : String) :
    DatabaseStore.hasText s.tables.concepts ConceptTable.id id =
      Keyed.has Concept.id s.concepts id :=
  hasText_map_row (fun _ => rfl) s.concepts id

theorem hasText_phrasings (s : VolatileStore) (id : String) :
    DatabaseStore.hasText s.tables.phrasings PhrasingTable.id id =
      Keyed.has Phrasing.id s.phrasings id :=
  hasText_map_row (fun _ => rfl) s.phrasings id

/-- A concept is inserted if its numbers are numbers and its identifier is new. -/
theorem insertConcept_tables_eq_ok {c : Concept} {db : DatabaseStore} :
    s.tables.insertConcept c = .ok db ↔
      c.memory.IsNumeric ∧ ¬ Keyed.has Concept.id s.concepts c.id ∧
        (s.insertConcept c.kept).tables = db := by
  have hinsert {rows : List (Row 13)} :
      ConceptTable.schema.insert s.tables.concepts (ConceptTable.row c) = .ok rows ↔
        c.memory.IsNumeric ∧ ¬ Keyed.has Concept.id s.concepts c.id ∧
          (s.concepts ++ [c.kept]).map ConceptTable.row = rows := by
    refine insert_map_row_eq_ok (y := c.kept) (fun _ => rfl) fun q => ?_
    rw [ConceptTable.fit_row, ConceptTable.complete_storedRow_eq_ok]
  rw [DatabaseStore.insertConcept, bind_eq_ok]
  constructor
  · rintro ⟨rows, hrows, hdb⟩
    obtain ⟨hnumeric, hnew, rfl⟩ := hinsert.1 hrows
    refine ⟨hnumeric, hnew, ?_⟩
    rw [← Except.ok.inj hdb, insertConcept, Keyed.put_of_not_has (x := c.kept) _ hnew]
    rfl
  · rintro ⟨hnumeric, hnew, rfl⟩
    refine ⟨_, hinsert.2 ⟨hnumeric, hnew, rfl⟩, ?_⟩
    rw [insertConcept, Keyed.put_of_not_has (x := c.kept) _ hnew]
    rfl

/-- A phrasing is inserted if its identifier is new and its concept is there. -/
theorem insertPhrasing_tables_eq_ok {p : Phrasing} {db : DatabaseStore} :
    s.tables.insertPhrasing p = .ok db ↔
      ¬ Keyed.has Phrasing.id s.phrasings p.id ∧ Keyed.has Concept.id s.concepts p.conceptId ∧
        tables { s with phrasings := Keyed.put Phrasing.id s.phrasings p.kept } = db := by
  have hinsert {rows : List (Row 11)} :
      PhrasingTable.schema.insert s.tables.phrasings (PhrasingTable.row p) = .ok rows ↔
        True ∧ ¬ Keyed.has Phrasing.id s.phrasings p.id ∧
          (s.phrasings ++ [p.kept]).map PhrasingTable.row = rows := by
    refine insert_map_row_eq_ok (y := p.kept) (fun _ => rfl) fun q => ?_
    rw [PhrasingTable.fit_row, PhrasingTable.row_kept, Except.ok.injEq, true_and]
  simp only [DatabaseStore.insertPhrasing, bind_eq_ok, ite_throw_eq_ok, hasText_concepts,
    Bool.not_eq_true', Bool.not_eq_false]
  constructor
  · rintro ⟨rows, hrows, hconcept, hdb⟩
    obtain ⟨-, hnew, rfl⟩ := hinsert.1 hrows
    refine ⟨hnew, hconcept, ?_⟩
    rw [← Except.ok.inj hdb, Keyed.put_of_not_has (x := p.kept) _ hnew]
    rfl
  · rintro ⟨hnew, hconcept, rfl⟩
    refine ⟨_, hinsert.2 ⟨trivial, hnew, rfl⟩, hconcept, ?_⟩
    rw [Keyed.put_of_not_has (x := p.kept) _ hnew]
    rfl

/-- The store with another preferred phrasing for a concept, which counts as updated. -/
def pointed (s : VolatileStore) (conceptId : String) (phrasingId : Option String)
    (clock : Instant) : VolatileStore :=
  { s with concepts := Keyed.change Concept.id s.concepts conceptId fun c =>
             { c with canonicalPhrasing := phrasingId, updatedAt := clock.cut } }

theorem setCanonical_tables (s : VolatileStore) (id : String) (o : Option String)
    (clock : Instant) : s.tables.setCanonical id o clock =
      if Keyed.has Concept.id s.concepts id then .ok (s.pointed id o clock).tables
      else .error (.notFound id) := by
  have hchange : ConceptTable.schema.change s.tables.concepts id [
      (ConceptTable.canonicalPhrasing, .ofText? o),
      (ConceptTable.updatedAt, .ofInstant clock)] =
        .ok ((s.pointed id o clock).concepts.map ConceptTable.row) :=
    change_map_row (fun _ => rfl) fun c _ => ConceptTable.overwrite_canonical c o clock
  rw [DatabaseStore.setCanonical, DatabaseStore.changeConcept, hasText_concepts, hchange]
  by_cases h : Keyed.has Concept.id s.concepts id
  · rw [if_neg (by simp [h]), if_pos h]
    rfl
  · rw [if_pos (by simp [h]), if_neg h]
    rfl

theorem archivePhrasing_tables (s : VolatileStore) (id : String) (now : Instant) :
    s.tables.archivePhrasing id now = (s.archivePhrasing id now.cut).map tables := by
  have hchange : PhrasingTable.schema.change s.tables.phrasings id [
      (PhrasingTable.archivedAt, .ofInstant now)] =
        .ok ((Keyed.change Phrasing.id s.phrasings id fun p =>
          { p with archivedAt := some now.cut }).map PhrasingTable.row) :=
    change_map_row (fun _ => rfl) fun p _ => PhrasingTable.overwrite_archived p now
  have hfind : DatabaseStore.find? PhrasingTable.schema s.tables.phrasings id =
      (Keyed.find? Phrasing.id s.phrasings id).map PhrasingTable.row :=
    find?_map_row (fun _ => rfl) s.phrasings id
  rw [DatabaseStore.archivePhrasing, archivePhrasing, hfind]
  cases hp : Keyed.find? Phrasing.id s.phrasings id with
  | none => rfl
  | some p =>
    have hhas : Keyed.has Phrasing.id s.phrasings id := by
      rw [Keyed.has_eq_isSome_find?, hp]
      rfl
    have hcell : (PhrasingTable.row p).get PhrasingTable.archivedAt = .null ↔
        p.archivedAt = none := by
      show Cell.ofInstant? p.archivedAt = .null ↔ _
      cases p.archivedAt <;> simp [Cell.ofInstant?, Cell.ofInstant]
    simp only [Option.map_some, hcell, DatabaseStore.changePhrasing, hasText_phrasings, hhas,
      hchange]
    cases p.archivedAt <;> rfl

/-- Recording the memory of an answer in the row of a concept. -/
theorem overwrite_memory_eq_ok {c : Concept} {p : ReviewPatch} {r : Row 13} :
    ConceptTable.schema.overwrite (ConceptTable.row c) (ConceptTable.memoryCells p.memory ++
      [(ConceptTable.updatedAt, .ofInstant p.interaction.attemptedAt)]) = .ok r ↔
        p.memory.IsNumeric ∧ ConceptTable.row (p.kept.onConcept c) = r := by
  rw [ConceptTable.overwrite_memory, ConceptTable.complete_storedRow_eq_ok]
  have hkept : ConceptTable.row (Concept.kept
      { c with memory := p.memory, updatedAt := p.interaction.attemptedAt }) =
        ConceptTable.row (p.kept.onConcept c) := by
    simp only [ConceptTable.row, Concept.kept, ReviewPatch.onConcept, ReviewPatch.kept,
      Interaction.kept, Cell.ofInstant_cut]
  rw [hkept]

theorem change_memory_tables (s : VolatileStore) {p : ReviewPatch} (hp : p.memory.IsNumeric) :
    ConceptTable.schema.change s.tables.concepts p.conceptId (ConceptTable.memoryCells p.memory ++
      [(ConceptTable.updatedAt, .ofInstant p.interaction.attemptedAt)]) =
        .ok ((s.recorded p.kept).concepts.map ConceptTable.row) :=
  change_map_row (fun _ => rfl) fun _ _ => overwrite_memory_eq_ok.2 ⟨hp, rfl⟩

theorem change_attempt_tables (s : VolatileStore) (p : ReviewPatch) :
    PhrasingTable.schema.change s.tables.phrasings p.phrasingId [
      (PhrasingTable.attemptCount, .ofWord p.attemptCount),
      (PhrasingTable.lastAttemptedAt, .ofInstant p.lastAttemptedAt)] =
        .ok ((s.recorded p.kept).phrasings.map PhrasingTable.row) :=
  change_map_row (fun _ => rfl) fun q _ =>
    PhrasingTable.overwrite_attempt q p.attemptCount p.lastAttemptedAt

/-- An answer is recorded if its concept and its phrasing are there, its numbers are numbers, and
    its interaction is new and refers to records that are there. -/
theorem record_tables_eq_ok {p : ReviewPatch} {db : DatabaseStore} :
    s.tables.record p = .ok db ↔
      Keyed.has Concept.id s.concepts p.conceptId ∧
      Keyed.has Phrasing.id s.phrasings p.phrasingId ∧ p.memory.IsNumeric ∧
      ¬ Keyed.has Interaction.id s.log p.interaction.id ∧
      Keyed.has Concept.id s.concepts p.interaction.conceptId ∧
      Keyed.has Phrasing.id s.phrasings p.interaction.phrasingId ∧
      (s.recorded p.kept).tables = db := by
  have hconcepts (id : String) : DatabaseStore.hasText
      ((s.recorded p.kept).concepts.map ConceptTable.row) ConceptTable.id id =
        Keyed.has Concept.id s.concepts id :=
    (hasText_map_row (fun _ => rfl) _ id).trans
      (Keyed.has_change Concept.id (f := p.kept.onConcept) (fun _ h => h) id)
  have hphrasings (id : String) : DatabaseStore.hasText
      ((s.recorded p.kept).phrasings.map PhrasingTable.row) PhrasingTable.id id =
        Keyed.has Phrasing.id s.phrasings id :=
    (hasText_map_row (fun _ => rfl) _ id).trans
      (Keyed.has_change Phrasing.id (f := p.kept.onPhrasing) (fun _ h => h) id)
  have hlog : (∀ q ∈ s.tables.interactions,
      q.get InteractionTable.id ≠ .text p.interaction.id) ↔
        ¬ Keyed.has Interaction.id s.log p.interaction.id := by
    have hcell (i : Interaction) :
        (InteractionTable.row i).get InteractionTable.id = .text i.id := rfl
    simp [tables, Keyed.has_iff, hcell]
  have htables : (s.recorded p.kept).tables =
      { concepts := (s.recorded p.kept).concepts.map ConceptTable.row
        phrasings := (s.recorded p.kept).phrasings.map PhrasingTable.row
        interactions := s.tables.interactions ++ [InteractionTable.row p.interaction] } := by
    have hrow : InteractionTable.row p.kept.interaction = InteractionTable.row p.interaction :=
      InteractionTable.row_kept p.interaction
    simp only [tables, recorded, List.map_append, List.map_singleton, hrow]
  rw [DatabaseStore.record_eq_ok, hasText_concepts, hasText_phrasings]
  constructor
  · rintro ⟨concepts, phrasings, hconcept, hchange, hphrasing, hchange', hinsert⟩
    -- The row of the concept has been overwritten, so what was written are numbers.
    obtain ⟨c, hc, hid⟩ := (Keyed.has_iff _).1 hconcept
    obtain ⟨q, hq⟩ := Schema.exists_overwrite_of_change hchange (List.mem_map_of_mem hc)
      (congrArg Cell.text hid)
    have hnumeric := (overwrite_memory_eq_ok.1 hq).1
    rw [change_memory_tables s hnumeric, Except.ok.injEq] at hchange
    rw [change_attempt_tables, Except.ok.injEq] at hchange'
    subst hchange hchange'
    rw [DatabaseStore.insertInteraction_eq_ok, hlog, hconcepts, hphrasings] at hinsert
    obtain ⟨hnew, hconcept', hphrasing', rfl⟩ := hinsert
    exact ⟨hconcept, hphrasing, hnumeric, hnew, hconcept', hphrasing', htables⟩
  · rintro ⟨hconcept, hphrasing, hnumeric, hnew, hconcept', hphrasing', rfl⟩
    refine ⟨_, _, hconcept, change_memory_tables s hnumeric, hphrasing, change_attempt_tables s p,
      DatabaseStore.insertInteraction_eq_ok.2 ?_⟩
    rw [hlog, hconcepts, hphrasings]
    exact ⟨hnew, hconcept', hphrasing', htables.symm⟩

theorem record_tables_of_not_has_concept {p : ReviewPatch}
    (hp : ¬ Keyed.has Concept.id s.concepts p.conceptId) :
    s.tables.record p = .error (.notFound p.conceptId) := by
  rw [DatabaseStore.record, DatabaseStore.changeConcept, hasText_concepts, if_pos (by simp [hp])]
  rfl

theorem record_tables_of_not_has_phrasing {p : ReviewPatch}
    (hnumeric : p.memory.IsNumeric) (hc : Keyed.has Concept.id s.concepts p.conceptId)
    (hp : ¬ Keyed.has Phrasing.id s.phrasings p.phrasingId) :
    s.tables.record p = .error (.notFound p.phrasingId) := by
  have hconcept : s.tables.changeConcept p.conceptId (ConceptTable.memoryCells p.memory ++
      [(ConceptTable.updatedAt, .ofInstant p.interaction.attemptedAt)]) =
        .ok { s.tables with concepts := (s.recorded p.kept).concepts.map ConceptTable.row } :=
    DatabaseStore.changeConcept_eq_ok.2
      ⟨by rw [hasText_concepts]; exact hc, _, change_memory_tables s hnumeric, rfl⟩
  rw [DatabaseStore.record, hconcept]
  show (DatabaseStore.changePhrasing _ _ _ >>= _) = _
  rw [DatabaseStore.changePhrasing]
  simp only
  rw [hasText_phrasings, if_pos (by simp [hp])]
  rfl

end VolatileStore

end SpacedReview
