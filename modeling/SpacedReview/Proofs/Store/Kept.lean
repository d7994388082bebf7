import SpacedReview.Proofs.Decimal.Kinds
import SpacedReview.Proofs.Document.Catalog
import SpacedReview.Proofs.Store.Records
import SpacedReview.Proofs.Store.Writes
import SpacedReview.Proofs.Time.Stamps

/-!
# Records that a database keeps

A database keeps a record with its times cut to the microsecond, minus zero as zero and an elapsed
time within its bounds. The row of a record is read as this kept form of it as long as its times
lie in the years 0 to 9999, and a record that has this form already is kept exactly as it is.

## Main definitions

- `Concept.Within`, `Phrasing.Within`, `Interaction.Within`, `ReviewPatch.Within` — records whose
  times and numbers satisfy given predicates
- `Concept.kept`, `Phrasing.kept`, `Interaction.kept`, `ReviewPatch.kept` — records as a database
  keeps them

## Main statements

- `ConceptTable.read_row`, `PhrasingTable.read_row`, `InteractionTable.read_row` — reading a row
- `ConceptTable.complete_storedRow_eq_ok`, `PhrasingTable.fit_row` — rows as their tables keep them
-/

namespace SpacedReview

/-! ## Times and numbers -/

/-- A whole microsecond in the years 0 to 9999. -/
def Instant.IsMicro (t : Instant) : Prop :=
  t.HasPlainYear ∧ t.nano % 1000 = 0

instance (t : Instant) : Decidable t.IsMicro :=
  inferInstanceAs (Decidable (_ ∧ _))

theorem Instant.isMicro_cut {t : Instant} (h : t.HasPlainYear) : t.cut.IsMicro :=
  ⟨h, Nat.mul_mod_left _ _⟩

theorem Instant.cut_of_isMicro {t : Instant} (h : t.IsMicro) : t.cut = t := by
  refine ext_of rfl ?_
  have hmicro := h.2
  show t.nano / 1000 * 1000 = t.nano
  omega

namespace Binary64

/-- A number that is not minus zero. -/
def IsPlain (x : Float) : Prop :=
  x.isNaN = false ∧ x ≠ -0.0

instance (x : Float) : Decidable (IsPlain x) :=
  inferInstanceAs (Decidable (_ ∧ _))

/-- The float with both zeros made one. -/
def oneZero (x : Float) : Float :=
  if x == 0.0 then 0.0 else x

theorem oneZero_of_isPlain {x : Float} (h : IsPlain x) : oneZero x = x := by
  unfold oneZero
  split
  · rename_i hzero
    rcases eq_zero_or_of_beq hzero with hx | hx
    · exact hx.symm
    · exact absurd hx h.2
  · rfl

theorem isPlain_oneZero {x : Float} (h : x.isNaN = false) : IsPlain (oneZero x) := by
  unfold oneZero
  split
  · decide
  · rename_i hzero
    refine ⟨h, ?_⟩
    rintro rfl
    exact hzero (by decide)

/-- Making the zeros one leaves a number equal to what it was. -/
theorem oneZero_beq {x : Float} (h : x.isNaN = false) : oneZero x == x := by
  unfold oneZero
  split
  · rename_i hzero
    rcases eq_zero_or_of_beq hzero with rfl | rfl
    · exact beq_self h
    · decide
  · exact beq_self h

end Binary64

theorem ColumnType.keepReal_eq {x : Float} (h : x.isNaN = false) :
    keepReal x = .real (Binary64.oneZero x) := by
  rw [keepReal, h]
  rfl

theorem ColumnType.isNaN_eq_false_of_keepReal {x : Float} (h : keepReal x ≠ .null) :
    x.isNaN = false := by
  by_contra hnan
  rw [keepReal, if_pos (by simpa using hnan)] at h
  exact h rfl

/-! ## Records within bounds -/

section Within

variable (time : Instant → Prop) (number : Float → Prop)

/-- The times and the numbers of a memory satisfy the predicates. -/
structure MemoryState.Within (m : MemoryState) : Prop where
  stability : number m.stability
  difficulty : number m.difficulty
  lastReview : ∀ t ∈ m.lastReview, time t
  nextReview : time m.nextReview

/-- The times and the numbers of a concept satisfy the predicates. -/
structure Concept.Within (c : Concept) : Prop where
  memory : c.memory.Within time number
  createdAt : time c.createdAt
  updatedAt : time c.updatedAt

/-- The times of a phrasing satisfy the predicate. -/
structure Phrasing.Within (p : Phrasing) : Prop where
  lastAttemptedAt : ∀ t ∈ p.lastAttemptedAt, time t
  createdAt : time p.createdAt
  archivedAt : ∀ t ∈ p.archivedAt, time t
  deletedAt : ∀ t ∈ p.deletedAt, time t

/-- The times and the numbers of an answer satisfy the predicates. -/
structure ReviewPatch.Within (p : ReviewPatch) : Prop where
  memory : p.memory.Within time number
  lastAttemptedAt : time p.lastAttemptedAt
  attemptedAt : time p.interaction.attemptedAt

end Within

/-! ## Kept records -/

/-- The memory as a database keeps it. -/
def MemoryState.kept (m : MemoryState) : MemoryState :=
  { m with
    stability := Binary64.oneZero m.stability
    difficulty := Binary64.oneZero m.difficulty
    lastReview := m.lastReview.map Instant.cut
    nextReview := m.nextReview.cut }

/-- The concept as a database keeps it. -/
def Concept.kept (c : Concept) : Concept :=
  { c with memory := c.memory.kept, createdAt := c.createdAt.cut, updatedAt := c.updatedAt.cut }

/-- The concept with its times cut to the microsecond. -/
def Concept.cut (c : Concept) : Concept :=
  { c with
    memory := { c.memory with
      lastReview := c.memory.lastReview.map Instant.cut
      nextReview := c.memory.nextReview.cut }
    createdAt := c.createdAt.cut
    updatedAt := c.updatedAt.cut }

/-- The phrasing as a database keeps it. -/
def Phrasing.kept (p : Phrasing) : Phrasing :=
  { p with
    lastAttemptedAt := p.lastAttemptedAt.map Instant.cut
    createdAt := p.createdAt.cut
    archivedAt := p.archivedAt.map Instant.cut
    deletedAt := p.deletedAt.map Instant.cut }

/-- The interaction as a database keeps it. -/
def Interaction.kept (i : Interaction) : Interaction :=
  { i with
    elapsedMs := UInt64.ofNat (min i.elapsedMs.toNat InteractionTable.longestElapsed)
    attemptedAt := i.attemptedAt.cut }

/-- The answer as a database keeps it. -/
def ReviewPatch.kept (p : ReviewPatch) : ReviewPatch :=
  { p with
    memory := p.memory.kept
    lastAttemptedAt := p.lastAttemptedAt.cut
    interaction := p.interaction.kept }

theorem map_cut_of_isMicro {o : Option Instant} (h : ∀ t ∈ o, t.IsMicro) :
    o.map Instant.cut = o := by
  cases o with
  | none => rfl
  | some t => rw [Option.map_some, Instant.cut_of_isMicro (h t rfl)]

theorem MemoryState.kept_of_within {m : MemoryState}
    (h : m.Within Instant.IsMicro Binary64.IsPlain) : m.kept = m := by
  rw [kept, Binary64.oneZero_of_isPlain h.stability, Binary64.oneZero_of_isPlain h.difficulty,
    map_cut_of_isMicro h.lastReview, Instant.cut_of_isMicro h.nextReview]

theorem Concept.kept_of_within {c : Concept} (h : c.Within Instant.IsMicro Binary64.IsPlain) :
    c.kept = c := by
  rw [kept, MemoryState.kept_of_within h.memory, Instant.cut_of_isMicro h.createdAt,
    Instant.cut_of_isMicro h.updatedAt]

theorem Concept.kept_eq_cut {c : Concept} {time : Instant → Prop}
    (h : c.Within time Binary64.IsPlain) : c.kept = c.cut := by
  rw [kept, MemoryState.kept, Binary64.oneZero_of_isPlain h.memory.stability,
    Binary64.oneZero_of_isPlain h.memory.difficulty, cut]

theorem Phrasing.kept_of_within {p : Phrasing} (h : p.Within Instant.IsMicro) : p.kept = p := by
  rw [kept, map_cut_of_isMicro h.lastAttemptedAt, Instant.cut_of_isMicro h.createdAt,
    map_cut_of_isMicro h.archivedAt, map_cut_of_isMicro h.deletedAt]

theorem Interaction.kept_of_isMicro {i : Interaction} (h : i.attemptedAt.IsMicro)
    (helapsed : i.elapsedMs.toNat ≤ InteractionTable.longestElapsed) : i.kept = i := by
  rw [kept, Instant.cut_of_isMicro h, Nat.min_eq_left helapsed, UInt64.ofNat_toNat]

/-! ## New records -/

theorem MemoryState.within_fresh {now : Instant} (h : now.IsMicro) :
    (fresh now).Within Instant.IsMicro Binary64.IsPlain := by
  have hzero : Binary64.IsPlain 0.0 := by decide
  exact ⟨hzero, hzero, by simp [fresh], h⟩

theorem Concept.within_create (id title : String) {m : MemoryState} {now : Instant}
    (hm : m.Within Instant.IsMicro Binary64.IsPlain) (h : now.IsMicro) :
    (create id title m now).Within Instant.IsMicro Binary64.IsPlain :=
  ⟨hm, h, h⟩

theorem Phrasing.within_create (id conceptId question answer : String) {now : Instant}
    (h : now.IsMicro) : (create id conceptId question answer now).Within Instant.IsMicro where
  lastAttemptedAt := by simp [create]
  createdAt := h
  archivedAt := by simp [create]
  deletedAt := by simp [create]

/-! ## What is kept lies within the bounds -/

theorem isMicro_of_mem_map_cut {o : Option Instant} (h : ∀ t ∈ o, t.HasPlainYear) :
    ∀ t ∈ o.map Instant.cut, t.IsMicro := by
  intro t ht
  obtain ⟨u, hu, rfl⟩ := Option.map_eq_some_iff.1 ht
  exact Instant.isMicro_cut (h u hu)

theorem MemoryState.within_kept {m : MemoryState}
    (h : m.Within Instant.HasPlainYear (·.isNaN = false)) :
    m.kept.Within Instant.IsMicro Binary64.IsPlain where
  stability := Binary64.isPlain_oneZero h.stability
  difficulty := Binary64.isPlain_oneZero h.difficulty
  lastReview := isMicro_of_mem_map_cut h.lastReview
  nextReview := Instant.isMicro_cut h.nextReview

theorem Concept.within_kept {c : Concept} (h : c.Within Instant.HasPlainYear (·.isNaN = false)) :
    c.kept.Within Instant.IsMicro Binary64.IsPlain where
  memory := MemoryState.within_kept h.memory
  createdAt := Instant.isMicro_cut h.createdAt
  updatedAt := Instant.isMicro_cut h.updatedAt

theorem Concept.within_cut {c : Concept} {number : Float → Prop}
    (h : c.Within Instant.HasPlainYear number) : c.cut.Within Instant.IsMicro number where
  memory := ⟨h.memory.stability, h.memory.difficulty, isMicro_of_mem_map_cut h.memory.lastReview,
    Instant.isMicro_cut h.memory.nextReview⟩
  createdAt := Instant.isMicro_cut h.createdAt
  updatedAt := Instant.isMicro_cut h.updatedAt

theorem Phrasing.within_kept {p : Phrasing} (h : p.Within Instant.HasPlainYear) :
    p.kept.Within Instant.IsMicro where
  lastAttemptedAt := isMicro_of_mem_map_cut h.lastAttemptedAt
  createdAt := Instant.isMicro_cut h.createdAt
  archivedAt := isMicro_of_mem_map_cut h.archivedAt
  deletedAt := isMicro_of_mem_map_cut h.deletedAt

/-! ## Reading the row of a record -/

section Reading

variable {n : Nat} {s : Schema n} {r : Row n} {c : Fin n}

theorem Schema.text?_ofText? {o : Option String} (h : r.get c = .ofText? o) :
    s.text? r c = .ok o := by
  cases o with
  | none =>
    have hnull : r.get c = .null := h
    rw [text?, hnull]
  | some x =>
    have htext : r.get c = .text x := h
    rw [text?, htext, text_eq_ok.2 htext]
    rfl

theorem Schema.instantOf_microStamp {t : Instant} (h : t.HasPlainYear) :
    s.instantOf c t.microStamp = .ok t.cut := by
  rw [instantOf, Instant.readStrict?_microStamp h]

theorem Schema.instant_ofInstant {t : Instant} (h : r.get c = .ofInstant t)
    (ht : t.HasPlainYear) : s.instant r c = .ok t.cut :=
  instant_eq_ok.2 ⟨t.microStamp, text_eq_ok.2 h, instantOf_microStamp ht⟩

theorem Schema.instant?_ofInstant? {o : Option Instant} (h : r.get c = .ofInstant? o)
    (ho : ∀ t ∈ o, t.HasPlainYear) : s.instant? r c = .ok (o.map Instant.cut) := by
  have htext : s.text? r c = .ok (o.map Instant.microStamp) :=
    text?_ofText? (h.trans (by cases o <;> rfl))
  cases o with
  | none => simp [instant?, htext, bind, Except.bind, pure, Except.pure]
  | some t =>
    have hread : s.instantOf c t.microStamp = .ok t.cut := instantOf_microStamp (ho t rfl)
    simp [instant?, htext, hread, bind, Except.bind, pure, Except.pure]

end Reading

theorem LearningState.ofName_name (state : LearningState) : ofName state.name = state := by
  cases state <;> decide +kernel

/-- A row is read with its times cut. -/
theorem ConceptTable.read_row_cut {c : Concept} {number : Float → Prop}
    (h : c.Within Instant.HasPlainYear number) : read (row c) = .ok c.cut :=
  read_eq_ok.2 ⟨rfl, rfl, Schema.text?_ofText? rfl,
    ⟨c.memory.state.name, rfl, LearningState.ofName_name _⟩, rfl, rfl, Schema.word32_ofWord rfl,
    Schema.word32_ofWord rfl, Schema.instant?_ofInstant? rfl h.memory.lastReview,
    Schema.instant_ofInstant rfl h.memory.nextReview, Schema.text?_ofText? rfl,
    Schema.instant_ofInstant rfl h.createdAt, Schema.instant_ofInstant rfl h.updatedAt⟩

theorem ConceptTable.read_row {c : Concept} {number : Float → Prop}
    (h : c.Within Instant.IsMicro number) : read (row c) = .ok c := by
  have hplain : c.Within Instant.HasPlainYear number :=
    ⟨⟨h.memory.stability, h.memory.difficulty, fun t ht => (h.memory.lastReview t ht).1,
      h.memory.nextReview.1⟩, h.createdAt.1, h.updatedAt.1⟩
  rw [read_row_cut hplain, Concept.cut, map_cut_of_isMicro h.memory.lastReview,
    Instant.cut_of_isMicro h.memory.nextReview, Instant.cut_of_isMicro h.createdAt,
    Instant.cut_of_isMicro h.updatedAt]

theorem PhrasingTable.read_row_kept {p : Phrasing} (h : p.Within Instant.HasPlainYear) :
    read (row p) = .ok p.kept := by
  have hoptions : readOptions (row p) = .ok p.options := by
    have htext : schema.text (row p) options = .ok (Phrasing.optionsToJson p.options).write := rfl
    have hread := (Phrasing.encodes_optionsToJson p.options).read?_write
    simp only [readOptions, htext, bind, Except.bind, hread, pure, Except.pure]
  exact read_eq_ok.2 ⟨hoptions, rfl, rfl, rfl, rfl, Schema.text?_ofText? rfl,
    Schema.word32_ofWord rfl, Schema.instant?_ofInstant? rfl h.lastAttemptedAt,
    Schema.instant_ofInstant rfl h.createdAt, Schema.instant?_ofInstant? rfl h.archivedAt,
    Schema.instant?_ofInstant? rfl h.deletedAt⟩

theorem PhrasingTable.read_row {p : Phrasing} (h : p.Within Instant.IsMicro) :
    read (row p) = .ok p := by
  have hplain : p.Within Instant.HasPlainYear :=
    ⟨fun t ht => (h.lastAttemptedAt t ht).1, h.createdAt.1, fun t ht => (h.archivedAt t ht).1,
      fun t ht => (h.deletedAt t ht).1⟩
  rw [read_row_kept hplain, Phrasing.kept_of_within h]

theorem InteractionTable.read_row {i : Interaction} (h : i.attemptedAt.HasPlainYear) :
    read (row i) = .ok i.kept := by
  have hbool : schema.bool (row i) isCorrect = .ok i.isCorrect := by
    have hcell : (row i).get isCorrect = .integer (if i.isCorrect then 1 else 0) := rfl
    rw [Schema.bool, Schema.integer, hcell]
    cases i.isCorrect <;> rfl
  exact read_eq_ok.2 ⟨rfl, rfl, rfl, rfl, hbool, ⟨_, rfl, rfl⟩, Schema.text?_ofText? rfl,
    Schema.instant_ofInstant rfl h⟩

/-! ## Writing the row of a record -/

/-- The numbers of a memory are numbers. -/
def MemoryState.IsNumeric (m : MemoryState) : Prop :=
  m.stability.isNaN = false ∧ m.difficulty.isNaN = false

theorem Cell.ofInstant_cut (t : Instant) : ofInstant t.cut = ofInstant t := by
  rw [ofInstant, ofInstant, Instant.microStamp_cut]

theorem Cell.ofInstant?_map_cut (o : Option Instant) :
    ofInstant? (o.map Instant.cut) = ofInstant? o := by
  cases o with
  | none => rfl
  | some t => exact ofInstant_cut t

namespace ConceptTable

/-- The row of a concept as its columns keep it. There is no cell for what is not a number. -/
def storedRow (c : Concept) : Row 13 := #v[
  .text c.id,
  .text c.title,
  .ofText? c.description,
  .ofInstant c.createdAt,
  .ofInstant c.updatedAt,
  .text c.memory.state.name,
  ColumnType.keepReal c.memory.stability,
  ColumnType.keepReal c.memory.difficulty,
  .ofWord c.memory.reps,
  .ofWord c.memory.lapses,
  .ofInstant? c.memory.lastReview,
  .ofInstant c.memory.nextReview,
  .ofText? c.canonicalPhrasing]

theorem storedRow_eq {c : Concept} (h : c.memory.IsNumeric) : storedRow c = row c.kept := by
  simp only [storedRow, row, ColumnType.keepReal_eq h.1, ColumnType.keepReal_eq h.2,
    Concept.kept, MemoryState.kept, Cell.ofInstant_cut, Cell.ofInstant?_map_cut]

theorem row_cut (c : Concept) : row c.cut = row c := by
  simp only [row, Concept.cut, Cell.ofInstant_cut, Cell.ofInstant?_map_cut]

theorem complete_row (c : Concept) : schema.complete (row c) = .ok (row c) :=
  rfl

/-- A row is kept if its numbers are numbers. -/
theorem complete_storedRow_eq_ok {c : Concept} {r : Row 13} :
    schema.complete (storedRow c) = .ok r ↔ c.memory.IsNumeric ∧ row c.kept = r := by
  constructor
  · intro h
    obtain ⟨hmissing, hrow⟩ := Schema.complete_eq_ok.1 h
    have hpresent := Schema.missing?_eq_none.1 hmissing
    have hnumeric : c.memory.IsNumeric :=
      ⟨ColumnType.isNaN_eq_false_of_keepReal (hpresent stability rfl),
        ColumnType.isNaN_eq_false_of_keepReal (hpresent difficulty rfl)⟩
    exact ⟨hnumeric, (storedRow_eq hnumeric).symm.trans hrow⟩
  · rintro ⟨hnumeric, rfl⟩
    rw [storedRow_eq hnumeric, complete_row]

theorem fit_row (c : Concept) : schema.fit (row c) = schema.complete (storedRow c) := by
  have hrow : schema.fit (row c) = schema.complete #v[
      .text c.id, .text c.title, ColumnType.text.keep (.ofText? c.description),
      .ofInstant c.createdAt, .ofInstant c.updatedAt, .text c.memory.state.name,
      ColumnType.keepReal c.memory.stability, ColumnType.keepReal c.memory.difficulty,
      .ofWord c.memory.reps, .ofWord c.memory.lapses,
      ColumnType.text.keep (.ofInstant? c.memory.lastReview), .ofInstant c.memory.nextReview,
      ColumnType.text.keep (.ofText? c.canonicalPhrasing)] := rfl
  rw [hrow, ColumnType.keep_ofText?, ColumnType.keep_ofText?, ColumnType.keep_ofInstant?, storedRow]

theorem overwrite_memory (c : Concept) (m : MemoryState) (t : Instant) :
    schema.overwrite (row c) (memoryCells m ++ [(updatedAt, .ofInstant t)]) =
      schema.complete (storedRow { c with memory := m, updatedAt := t }) := by
  have hrow : schema.overwrite (row c) (memoryCells m ++ [(updatedAt, .ofInstant t)]) =
      schema.complete #v[
        .text c.id, .text c.title, .ofText? c.description, .ofInstant c.createdAt, .ofInstant t,
        .text m.state.name, ColumnType.keepReal m.stability, ColumnType.keepReal m.difficulty,
        .ofWord m.reps, .ofWord m.lapses, ColumnType.text.keep (.ofInstant? m.lastReview),
        .ofInstant m.nextReview, .ofText? c.canonicalPhrasing] := rfl
  rw [hrow, ColumnType.keep_ofInstant?, storedRow]

theorem overwrite_canonical (c : Concept) (o : Option String) (t : Instant) :
    schema.overwrite (row c) [(canonicalPhrasing, .ofText? o), (updatedAt, .ofInstant t)] =
      .ok (row { c with canonicalPhrasing := o, updatedAt := t.cut }) := by
  have hrow : schema.overwrite (row c) [(canonicalPhrasing, .ofText? o),
      (updatedAt, .ofInstant t)] = schema.complete #v[
        .text c.id, .text c.title, .ofText? c.description, .ofInstant c.createdAt, .ofInstant t,
        .text c.memory.state.name, .real c.memory.stability, .real c.memory.difficulty,
        .ofWord c.memory.reps, .ofWord c.memory.lapses, .ofInstant? c.memory.lastReview,
        .ofInstant c.memory.nextReview, ColumnType.text.keep (.ofText? o)] := rfl
  rw [hrow, ColumnType.keep_ofText?, ← Cell.ofInstant_cut t]
  rfl

end ConceptTable

namespace PhrasingTable

theorem row_kept (p : Phrasing) : row p.kept = row p := by
  simp only [row, Phrasing.kept, Cell.ofInstant_cut, Cell.ofInstant?_map_cut]

theorem fit_row (p : Phrasing) : schema.fit (row p) = .ok (row p) := by
  have hrow : schema.fit (row p) = schema.complete #v[
      .text p.id, .text p.conceptId, .text p.question,
      .text (Phrasing.optionsToJson p.options).write, .text p.correctAnswer,
      ColumnType.text.keep (.ofText? p.explanation), .ofWord p.attemptCount,
      ColumnType.text.keep (.ofInstant? p.lastAttemptedAt), .ofInstant p.createdAt,
      ColumnType.text.keep (.ofInstant? p.archivedAt),
      ColumnType.text.keep (.ofInstant? p.deletedAt)] := rfl
  rw [hrow, ColumnType.keep_ofText?, ColumnType.keep_ofInstant?, ColumnType.keep_ofInstant?,
    ColumnType.keep_ofInstant?]
  rfl

theorem overwrite_attempt (p : Phrasing) (n : UInt32) (t : Instant) :
    schema.overwrite (row p) [(attemptCount, .ofWord n), (lastAttemptedAt, .ofInstant t)] =
      .ok (row { p with attemptCount := n, lastAttemptedAt := some t.cut }) := by
  have hrow : schema.overwrite (row p) [(attemptCount, .ofWord n),
      (lastAttemptedAt, .ofInstant t)] =
        .ok (row { p with attemptCount := n, lastAttemptedAt := some t }) := rfl
  have hcut : Cell.ofInstant? (some t.cut) = .ofInstant? (some t) := Cell.ofInstant_cut t
  rw [hrow]
  simp only [row, hcut]

theorem overwrite_archived (p : Phrasing) (t : Instant) :
    schema.overwrite (row p) [(archivedAt, .ofInstant t)] =
      .ok (row { p with archivedAt := some t.cut }) := by
  have hrow : schema.overwrite (row p) [(archivedAt, .ofInstant t)] =
      .ok (row { p with archivedAt := some t }) := rfl
  have hcut : Cell.ofInstant? (some t.cut) = .ofInstant? (some t) := Cell.ofInstant_cut t
  rw [hrow]
  simp only [row, hcut]

end PhrasingTable

theorem InteractionTable.row_kept (i : Interaction) : row i.kept = row i := by
  have helapsed : min (UInt64.ofNat (min i.elapsedMs.toNat longestElapsed)).toNat longestElapsed =
      min i.elapsedMs.toNat longestElapsed := by
    have hlt := i.elapsedMs.toNat_lt
    rw [UInt64.toNat_ofNat_of_lt' (by simp only [UInt64.size]; omega)]
    omega
  simp only [row, Interaction.kept, Cell.ofInstant_cut, helapsed]
  rfl

end SpacedReview
