import SpacedReview.Proofs.Store.InPlace
import SpacedReview.Proofs.Store.Mirror

/-!
# All or nothing

An answer that a store takes in changes one concept, one phrasing and the log, and nothing else; an
answer that it refuses changes nothing. This holds of every store, also of a database with rows that
cannot be read.

## Main definitions

- `ShowsOnly` — what a store shows after an answer
- `VolatileStore.AnswerRecorded`, `DatabaseStore.AnswerRecorded` — what it holds after an answer

## Main statements

- `recordInPlace_allOrNothing` — an answer is recorded as a whole and alone, or not at all
-/

namespace SpacedReview

/-! ## What an answer changes -/

/-- The store `t` shows the answer and is otherwise the store `s`. -/
structure ShowsOnly {σ : Type} [ReviewStore σ] (p : ReviewPatch) (s t : σ) : Prop where
  concept : ∀ c, ReviewStore.concept? s p.conceptId = .ok (some c) →
    ReviewStore.concept? t p.conceptId = .ok (some (p.onConcept c))
  concept_other : ∀ id, id ≠ p.conceptId → ReviewStore.concept? t id = ReviewStore.concept? s id
  phrasing : ∀ q, ReviewStore.phrasing? s p.phrasingId = .ok (some q) →
    ReviewStore.phrasing? t p.phrasingId = .ok (some (p.onPhrasing q))
  phrasing_other : ∀ id, id ≠ p.phrasingId →
    ReviewStore.phrasing? t id = ReviewStore.phrasing? s id
  recent_other : ∀ id, id ≠ p.interaction.phrasingId → ∀ limit,
    ReviewStore.recent t id limit = ReviewStore.recent s id limit

namespace VolatileStore

/-- The store `t` is the store `s` after an answer. -/
structure AnswerRecorded (p : ReviewPatch) (s t : VolatileStore) : Prop where
  has_concept : Keyed.has Concept.id s.concepts p.conceptId
  has_phrasing : Keyed.has Phrasing.id s.phrasings p.phrasingId
  shows : ShowsOnly p s t
  concepts : List.Forall₂ (fun c d => d = if c.id = p.conceptId then p.onConcept c else c)
    s.concepts t.concepts
  phrasings : List.Forall₂ (fun q r => r = if q.id = p.phrasingId then p.onPhrasing q else q)
    s.phrasings t.phrasings
  log : t.log = s.log ++ [p.interaction]

theorem filter_log_recorded (s : VolatileStore) {p : ReviewPatch} {id : String}
    (h : id ≠ p.interaction.phrasingId) :
    (s.recorded p).log.filter (·.phrasingId = id) = s.log.filter (·.phrasingId = id) := by
  simp [recorded, Ne.symm h]

theorem answerRecorded_of_record {s t : VolatileStore} {p : ReviewPatch} (h : s.record p = .ok t) :
    AnswerRecorded p s t := by
  obtain ⟨hc, hp, rfl⟩ := record_eq_ok.1 h
  refine ⟨hc, hp, ⟨?_, ?_, ?_, ?_, ?_⟩, ?_, ?_, rfl⟩
  · intro c h
    have hfind : Keyed.find? Concept.id s.concepts p.conceptId = some c := Except.ok.inj h
    show Except.ok (Keyed.find? Concept.id (s.recorded p).concepts p.conceptId) = _
    rw [find?_concepts_recorded, if_pos rfl, hfind]
    rfl
  · intro id hid
    show Except.ok (Keyed.find? Concept.id (s.recorded p).concepts id) = _
    rw [find?_concepts_recorded, if_neg hid]
    rfl
  · intro q h
    have hfind : Keyed.find? Phrasing.id s.phrasings p.phrasingId = some q := Except.ok.inj h
    show Except.ok (Keyed.find? Phrasing.id (s.recorded p).phrasings p.phrasingId) = _
    rw [find?_phrasings_recorded, if_pos rfl, hfind]
    rfl
  · intro id hid
    show Except.ok (Keyed.find? Phrasing.id (s.recorded p).phrasings id) = _
    rw [find?_phrasings_recorded, if_neg hid]
    rfl
  · intro id hid limit
    show Except.ok ((s.recorded p).recent id limit) = Except.ok (s.recent id limit)
    rw [recent, filter_log_recorded s hid, recent]
  · exact List.forall₂_map_right_iff.2 (List.forall₂_same.2 fun _ _ => rfl)
  · exact List.forall₂_map_right_iff.2 (List.forall₂_same.2 fun _ _ => rfl)

end VolatileStore

/-- A memory can only be written if its stability and its difficulty are numbers: the columns take
    no `NULL`. -/
theorem ConceptTable.isNumeric_of_overwrite_memory {q r : Row 13} {m : MemoryState} {t : Instant}
    (h : schema.overwrite r (memoryCells m ++ [(updatedAt, .ofInstant t)]) = .ok q) :
    m.IsNumeric := by
  have hcell (v : Fin 13 × Cell) (hv : v ∈ memoryCells m) : q.get v.1 = schema.keep v.1 v.2 :=
    Schema.get_overwrite_of_mem h (List.mem_append_left _ hv) (DatabaseStore.nodup_memoryCells _ _)
  constructor
  · have hnull := Schema.get_ne_null_of_overwrite (c := stability) h rfl
    rw [hcell (stability, .real m.stability) (by simp [memoryCells])] at hnull
    exact ColumnType.isNaN_eq_false_of_keepReal hnull
  · have hnull := Schema.get_ne_null_of_overwrite (c := difficulty) h rfl
    rw [hcell (difficulty, .real m.difficulty) (by simp [memoryCells])] at hnull
    exact ColumnType.isNaN_eq_false_of_keepReal hnull

/-- The cells of an overwritten memory are those of the memory as a database keeps it. -/
theorem ConceptTable.get_of_overwrite_memory {q r : Row 13} {m : MemoryState} {t : Instant}
    (h : schema.overwrite r (memoryCells m ++ [(updatedAt, .ofInstant t)]) = .ok q)
    (hm : m.IsNumeric) :
    ∀ v ∈ memoryCells m.kept ++ [(updatedAt, .ofInstant t)], q.get v.1 = v.2 := by
  have hnew (v : Fin 13 × Cell) (hv : v ∈ memoryCells m ++ [(updatedAt, .ofInstant t)]) :
      q.get v.1 = schema.keep v.1 v.2 :=
    Schema.get_overwrite_of_mem h hv (DatabaseStore.nodup_memoryCells _ _)
  intro v hv
  simp only [memoryCells, MemoryState.kept, Cell.ofInstant?_map_cut, Cell.ofInstant_cut,
    List.cons_append, List.nil_append, List.mem_cons, List.not_mem_nil, or_false] at hv
  rcases hv with rfl | rfl | rfl | rfl | rfl | rfl | rfl | rfl
  · exact hnew (learningState, .text m.state.name) (by simp [memoryCells])
  · exact (hnew (stability, .real m.stability) (by simp [memoryCells])).trans
      (ColumnType.keepReal_eq hm.1)
  · exact (hnew (difficulty, .real m.difficulty) (by simp [memoryCells])).trans
      (ColumnType.keepReal_eq hm.2)
  · exact hnew (reps, .ofWord m.reps) (by simp [memoryCells])
  · exact hnew (lapses, .ofWord m.lapses) (by simp [memoryCells])
  · exact (hnew (lastReview, .ofInstant? m.lastReview) (by simp [memoryCells])).trans
      (ColumnType.keep_ofInstant? _)
  · exact hnew (nextReview, .ofInstant m.nextReview) (by simp [memoryCells])
  · exact hnew (updatedAt, .ofInstant t) (by simp)

/-- A concept that was read before its memory was overwritten is read with the new memory. -/
theorem ConceptTable.read_of_overwrite_memory {q r : Row 13} {m : MemoryState} {t : Instant}
    {c : Concept} (h : schema.overwrite r (memoryCells m ++ [(updatedAt, .ofInstant t)]) = .ok q)
    (hm : m.IsNumeric) (hlast : ∀ u ∈ m.lastReview, u.HasPlainYear)
    (hnext : m.nextReview.HasPlainYear) (ht : t.HasPlainYear) (hc : read r = .ok c) :
    read q = .ok { c with memory := m.kept, updatedAt := t.cut } := by
  have hold (d : Fin 13) (hd : d ∉ ([5, 6, 7, 8, 9, 10, 11, 4] : List (Fin 13))) :
      q.get d = r.get d :=
    Schema.get_overwrite_of_not_mem h hd
  obtain ⟨hid, htitle, hdescription, -, -, -, -, -, -, -, hcanonical, hcreated, -⟩ :=
    read_eq_ok.1 hc
  have hcell (d : Fin 13) (v : Cell) (hv : (d, v) ∈ memoryCells m.kept) : q.get d = v :=
    get_of_overwrite_memory h hm (d, v) (List.mem_append_left _ hv)
  have hupdated : q.get updatedAt = .ofInstant t :=
    get_of_overwrite_memory h hm (updatedAt, .ofInstant t) (by simp)
  have hreal (d : Fin 13) (x : Float) (hd : q.get d = .real x) : schema.real q d = .ok x := by
    rw [Schema.real, hd]
  refine read_eq_ok.2 ⟨?_, ?_, ?_, ⟨m.state.name, ?_, LearningState.ofName_name _⟩, ?_, ?_, ?_, ?_,
    ?_, ?_, ?_, ?_, Schema.instant_ofInstant hupdated ht⟩
  · rw [Schema.text_congr (hold id (by decide)), hid]
  · rw [Schema.text_congr (hold title (by decide)), htitle]
  · rw [Schema.text?_congr (hold description (by decide)), hdescription]
  · exact Schema.text_eq_ok.2 (hcell learningState _ (by simp [memoryCells, MemoryState.kept]))
  · exact hreal _ _ (hcell stability _ (by simp [memoryCells]))
  · exact hreal _ _ (hcell difficulty _ (by simp [memoryCells]))
  · exact Schema.word32_ofWord (hcell reps _ (by simp [memoryCells, MemoryState.kept]))
  · exact Schema.word32_ofWord (hcell lapses _ (by simp [memoryCells, MemoryState.kept]))
  · refine Schema.instant?_ofInstant? ?_ hlast
    rw [← Cell.ofInstant?_map_cut]
    exact hcell lastReview _ (by simp [memoryCells, MemoryState.kept])
  · refine Schema.instant_ofInstant ?_ hnext
    rw [← Cell.ofInstant_cut]
    exact hcell nextReview _ (by simp [memoryCells, MemoryState.kept])
  · rw [Schema.text?_congr (hold canonicalPhrasing (by decide)), hcanonical]
  · rw [Schema.instant_congr (hold createdAt (by decide)), hcreated]

/-- The cells of a counted attempt. -/
theorem PhrasingTable.get_of_overwrite_attempt {q r : Row 11} {k : UInt32} {t : Instant}
    (h : schema.overwrite r [(attemptCount, .ofWord k), (lastAttemptedAt, .ofInstant t)] = .ok q) :
    ∀ v ∈ [(attemptCount, .ofWord k), (lastAttemptedAt, .ofInstant t)], q.get v.1 = v.2 := by
  intro v hv
  rw [Schema.get_overwrite_of_mem h hv (DatabaseStore.nodup_attemptCells _ _)]
  simp only [List.mem_cons, List.not_mem_nil, or_false] at hv
  rcases hv with rfl | rfl <;> rfl

/-- A phrasing that was read before an attempt was counted is read with the attempt. -/
theorem PhrasingTable.read_of_overwrite_attempt {q r : Row 11} {k : UInt32} {t : Instant}
    {p : Phrasing} (h : schema.overwrite r [(attemptCount, .ofWord k),
      (lastAttemptedAt, .ofInstant t)] = .ok q) (ht : t.HasPlainYear) (hp : read r = .ok p) :
    read q = .ok { p with attemptCount := k, lastAttemptedAt := some t.cut } := by
  have hold (d : Fin 11) (hd : d ∉ ([6, 7] : List (Fin 11))) : q.get d = r.get d :=
    Schema.get_overwrite_of_not_mem h hd
  have hcount : q.get attemptCount = .ofWord k :=
    get_of_overwrite_attempt h (attemptCount, .ofWord k) (by simp)
  have hlast : q.get lastAttemptedAt = .ofInstant t :=
    get_of_overwrite_attempt h (lastAttemptedAt, .ofInstant t) (by simp)
  obtain ⟨hoptions, hid, hconcept, hquestion, hanswer, hexplanation, -, -, hcreated, harchived,
    hdeleted⟩ := read_eq_ok.1 hp
  refine read_eq_ok.2 ⟨?_, ?_, ?_, ?_, ?_, ?_, Schema.word32_ofWord hcount, ?_, ?_, ?_, ?_⟩
  · rw [readOptions, Schema.text_congr (hold options (by decide)), ← readOptions, hoptions]
  · rw [Schema.text_congr (hold id (by decide)), hid]
  · rw [Schema.text_congr (hold conceptId (by decide)), hconcept]
  · rw [Schema.text_congr (hold question (by decide)), hquestion]
  · rw [Schema.text_congr (hold correctAnswer (by decide)), hanswer]
  · rw [Schema.text?_congr (hold explanation (by decide)), hexplanation]
  · rw [Schema.instant?_ofInstant? (o := some t) hlast (by simpa using ht)]
    rfl
  · rw [Schema.instant_congr (hold createdAt (by decide)), hcreated]
  · rw [Schema.instant?_congr (hold archivedAt (by decide)), harchived]
  · rw [Schema.instant?_congr (hold deletedAt (by decide)), hdeleted]

/-- A row of a table stays as it is, except for some cells of the row with an identifier. -/
def Schema.ChangesOnly {n : Nat} (s : Schema n) (id : String) (changed : List (Fin n))
    (r q : Row n) : Prop :=
  q = r ∨ s.hasId r id ∧ ∀ c, c ∉ changed → q.get c = r.get c

theorem Schema.forall₂_changesOnly {n : Nat} {s : Schema n} {rows rows' : List (Row n)}
    {id : String} {cells : List (Fin n × Cell)} (h : s.change rows id cells = .ok rows') :
    List.Forall₂ (s.ChangesOnly id (cells.map Prod.fst)) rows rows' := by
  refine List.Forall₂.imp (fun r q hq => ?_) (mapM_eq_ok.1 h)
  by_cases hid : s.hasId r id
  · rw [if_pos hid] at hq
    exact .inr ⟨hid, fun c hc => get_overwrite_of_not_mem hq hc⟩
  · rw [if_neg hid] at hq
    exact .inl (Except.ok.inj hq).symm

namespace DatabaseStore

/-- The columns of a concept that an answer changes. -/
def answeredColumns : List (Fin 13) :=
  [ConceptTable.learningState, ConceptTable.stability, ConceptTable.difficulty, ConceptTable.reps,
    ConceptTable.lapses, ConceptTable.lastReview, ConceptTable.nextReview, ConceptTable.updatedAt]

/-- The columns of a phrasing that an answer changes. -/
def attemptedColumns : List (Fin 11) :=
  [PhrasingTable.attemptCount, PhrasingTable.lastAttemptedAt]

/-- The database `db'` is the database `db` after an answer. What it shows of the answer is what a
    database keeps of it, as long as the times of the answer lie in the years 0 to 9999. -/
structure AnswerRecorded (p : ReviewPatch) (db db' : DatabaseStore) : Prop where
  has_concept : hasText db.concepts ConceptTable.id p.conceptId
  has_phrasing : hasText db.phrasings PhrasingTable.id p.phrasingId
  shows : p.Within Instant.HasPlainYear (fun _ => True) → ShowsOnly p.kept db db'
  concept_cells : ∃ r, find? ConceptTable.schema db'.concepts p.conceptId = some r ∧
    ∀ v ∈ ConceptTable.memoryCells p.memory.kept ++
      [(ConceptTable.updatedAt, .ofInstant p.interaction.attemptedAt)], r.get v.1 = v.2
  phrasing_cells : ∃ r, find? PhrasingTable.schema db'.phrasings p.phrasingId = some r ∧
    ∀ v ∈ [(PhrasingTable.attemptCount, .ofWord p.attemptCount),
      (PhrasingTable.lastAttemptedAt, .ofInstant p.lastAttemptedAt)], r.get v.1 = v.2
  stability : p.memory.kept.stability == p.memory.stability
  difficulty : p.memory.kept.difficulty == p.memory.difficulty
  concepts : List.Forall₂ (ConceptTable.schema.ChangesOnly p.conceptId answeredColumns)
    db.concepts db'.concepts
  phrasings : List.Forall₂ (PhrasingTable.schema.ChangesOnly p.phrasingId attemptedColumns)
    db.phrasings db'.phrasings
  interactions : db'.interactions = db.interactions ++ [InteractionTable.row p.interaction]
  read_interaction : p.interaction.attemptedAt.HasPlainYear →
    InteractionTable.read (InteractionTable.row p.interaction) = .ok p.interaction.kept

variable {db db' : DatabaseStore} {p : ReviewPatch}

theorem answerRecorded_of_record (h : db.record p = .ok db') : AnswerRecorded p db db' := by
  obtain ⟨concepts, phrasings, hc, hconcepts, hp, hphrasings, hi⟩ := record_eq_ok.1 h
  obtain ⟨-, -, -, rfl⟩ := insertInteraction_eq_ok.1 hi
  obtain ⟨r, hr⟩ := exists_find? (s := ConceptTable.schema) hc
  obtain ⟨q, hq, hfind⟩ := Schema.find?_change_self hconcepts (not_mem_memoryCells _ _) hr
  have hnumeric := ConceptTable.isNumeric_of_overwrite_memory hq
  obtain ⟨x, hx⟩ := exists_find? (s := PhrasingTable.schema) hp
  obtain ⟨y, hy, hyfind⟩ := Schema.find?_change_self hphrasings (not_mem_attemptCells _ _) hx
  refine ⟨hc, hp, fun hwithin => ⟨?_, ?_, ?_, ?_, ?_⟩,
    ⟨q, hfind, ConceptTable.get_of_overwrite_memory hq hnumeric⟩,
    ⟨y, hyfind, PhrasingTable.get_of_overwrite_attempt hy⟩, Binary64.oneZero_beq hnumeric.1,
    Binary64.oneZero_beq hnumeric.2, Schema.forall₂_changesOnly hconcepts,
    Schema.forall₂_changesOnly hphrasings, rfl, InteractionTable.read_row⟩
  · intro c hread
    obtain ⟨r', hr', hread⟩ := concept?_eq_ok_some.1 hread
    obtain rfl : r = r' := Option.some.inj (hr.symm.trans hr')
    exact concept?_eq_ok_some.2 ⟨q, hfind, ConceptTable.read_of_overwrite_memory hq hnumeric
      hwithin.memory.lastReview hwithin.memory.nextReview hwithin.attemptedAt hread⟩
  · intro id hid
    show concept? _ id = concept? db id
    rw [concept?, Schema.find?_change_other hconcepts (not_mem_memoryCells _ _) hid, concept?]
  · intro z hread
    obtain ⟨x', hx', hread⟩ := phrasing?_eq_ok_some.1 hread
    obtain rfl : x = x' := Option.some.inj (hx.symm.trans hx')
    exact phrasing?_eq_ok_some.2 ⟨y, hyfind, PhrasingTable.read_of_overwrite_attempt hy
      hwithin.lastAttemptedAt hread⟩
  · intro id hid
    show phrasing? _ id = phrasing? db id
    rw [phrasing?, Schema.find?_change_other hphrasings (not_mem_attemptCells _ _) hid, phrasing?]
  · intro id hid limit
    have hrow : (InteractionTable.row p.interaction).get InteractionTable.phrasingId ≠ .text id :=
      fun heq => hid (Cell.text.inj heq).symm
    show recent _ id limit = recent db id limit
    rw [recent, recent]
    congr 2
    simp [recentRows, hrow]

end DatabaseStore

/-! ## All or nothing -/

/-- An answer is recorded as a whole and alone, or not at all, however far the operation has come
    when it fails. -/
theorem recordInPlace_allOrNothing :
    (∀ (s t : VolatileStore) (p : ReviewPatch),
      (∀ err, (VolatileStore.recordInPlace p).on s = (.error err, t) → t = s) ∧
      ((VolatileStore.recordInPlace p).on s = (.ok (), t) →
        VolatileStore.AnswerRecorded p s t)) ∧
    (∀ (db db' : DatabaseStore) (p : ReviewPatch),
      (∀ err, (DatabaseStore.recordInPlace p).on db = (.error err, db') → db' = db) ∧
      ((DatabaseStore.recordInPlace p).on db = (.ok (), db') →
        DatabaseStore.AnswerRecorded p db db')) := by
  refine ⟨fun s t p => ?_, fun db db' p => ?_⟩
  · rw [VolatileStore.recordInPlace_on]
    exact ⟨fun err h => InPlace.eq_of_ending_error h,
      fun h => VolatileStore.answerRecorded_of_record (InPlace.eq_ok_of_ending h)⟩
  · rw [DatabaseStore.recordInPlace_on]
    exact ⟨fun err h => InPlace.eq_of_ending_error h,
      fun h => DatabaseStore.answerRecorded_of_record (InPlace.eq_ok_of_ending h)⟩

/-- One answer is recorded. Another one fails at the phrasing, after the concept was written. -/
theorem recordInPlace_lostPhrasing :
    let now : Instant := ⟨0, 0, by decide, by decide, by decide, by decide⟩
    let s : VolatileStore :=
      ⟨[.create "c" "title" (.fresh now) now], [.create "q" "c" "question" "answer" now], []⟩
    let answer : ReviewPatch :=
      { conceptId := "c"
        memory := { MemoryState.fresh now with state := .review, stability := 2.5, reps := 1 }
        phrasingId := "q", attemptCount := 1, lastAttemptedAt := now
        interaction := ⟨"i", "c", "q", "answer", true, 900, none, now⟩ }
    let lost := { answer with phrasingId := "lost" }
    (∃ t, VolatileStore.AnswerRecorded answer s t) ∧
      (∃ db, DatabaseStore.AnswerRecorded answer s.tables db) ∧
      ∃ db, (DatabaseStore.recordInPlace lost).on s.tables = (.error (.notFound "lost"), db) ∧
        db = s.tables := by
  intro now s answer lost
  have hs : ((VolatileStore.recordInPlace answer).on s).1 = .ok () := rfl
  have hdb : ((DatabaseStore.recordInPlace answer).on s.tables).1 = .ok () := by
    decide +kernel
  have hlost : ((DatabaseStore.recordInPlace lost).on s.tables).1 = .error (.notFound "lost") := by
    decide +kernel
  generalize hx : (VolatileStore.recordInPlace answer).on s = x at hs
  generalize hy : (DatabaseStore.recordInPlace answer).on s.tables = y at hdb
  generalize hz : (DatabaseStore.recordInPlace lost).on s.tables = z at hlost
  obtain ⟨_, t⟩ := x
  obtain ⟨_, db⟩ := y
  obtain ⟨_, db'⟩ := z
  obtain rfl := hs
  obtain rfl := hdb
  obtain rfl := hlost
  exact ⟨⟨t, (recordInPlace_allOrNothing.1 s t answer).2 hx⟩,
    ⟨db, (recordInPlace_allOrNothing.2 s.tables db answer).2 hy⟩,
    ⟨db', rfl, (recordInPlace_allOrNothing.2 s.tables db' lost).1 _ hz⟩⟩

end SpacedReview
