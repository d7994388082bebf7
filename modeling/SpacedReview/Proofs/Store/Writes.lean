import SpacedReview.Proofs.Store.Rows

/-!
# Writing records

What the operations of a database leave behind when they succeed: which checks have passed and
which rows were changed or added.

## Main statements

- `Schema.fit_of_keep` — a row as the table keeps it
- `DatabaseStore.changeConcept_eq_ok`, `changePhrasing_eq_ok`, `insertInteraction_eq_ok` and
  `record_eq_ok` — the three writes of an answer
-/

namespace SpacedReview

/-! ## Rows that fit -/

theorem ColumnType.keep_ofText? (o : Option String) : text.keep (.ofText? o) = .ofText? o := by
  cases o <;> rfl

theorem ColumnType.keep_ofInstant? (o : Option Instant) :
    text.keep (.ofInstant? o) = .ofInstant? o := by
  cases o <;> rfl

theorem Schema.fit_of_keep {n : Nat} {s : Schema n} {r q : Row n}
    (h : ∀ c, s.keep c (r.get c) = q.get c) : s.fit r = s.complete q := by
  rw [fit]
  congr 1
  ext c hc
  rw [Vector.getElem_ofFn]
  exact h ⟨c, hc⟩

/-- The row of an interaction is kept as it is. -/
theorem InteractionTable.fit_row (i : Interaction) : schema.fit (row i) = .ok (row i) := by
  rw [Schema.fit_of_keep (q := row i)]
  · rfl
  · intro c
    match c with
    | 0 | 1 | 2 | 3 | 4 | 5 | 7 => rfl
    | 6 => exact ColumnType.keep_ofText? _

theorem ite_throw_eq_ok {ε α : Type} {p : Prop} [Decidable p] {e : ε} {f : PUnit → Except ε α}
    {x : Except ε α} {a : α} :
    (if p then throw e >>= f else x) = .ok a ↔ ¬ p ∧ x = .ok a := by
  by_cases h : p <;> simp [h, throw, throwThe, MonadExceptOf.throw, bind, Except.bind]

namespace DatabaseStore

variable {db db' : DatabaseStore}

theorem hasText_iff {n : Nat} {rows : List (Row n)} {c : Fin n} {x : String} :
    hasText rows c x ↔ ∃ r ∈ rows, r.get c = .text x := by
  simp [hasText]

theorem concept?_eq_ok_some {db : DatabaseStore} {id : String} {c : Concept} :
    db.concept? id = .ok (some c) ↔
      ∃ r, find? ConceptTable.schema db.concepts id = some r ∧ ConceptTable.read r = .ok c := by
  unfold concept?
  cases find? ConceptTable.schema db.concepts id <;> simp [map_eq_ok]

theorem phrasing?_eq_ok_some {db : DatabaseStore} {id : String} {p : Phrasing} :
    db.phrasing? id = .ok (some p) ↔
      ∃ r, find? PhrasingTable.schema db.phrasings id = some r ∧ PhrasingTable.read r = .ok p := by
  unfold phrasing?
  cases find? PhrasingTable.schema db.phrasings id <;> simp [map_eq_ok]

theorem exists_find? {n : Nat} {s : Schema n} {rows : List (Row n)} {id : String}
    (h : hasText rows s.key id) : ∃ r, find? s rows id = some r := by
  obtain ⟨r, hr, hid⟩ := hasText_iff.1 h
  exact Option.isSome_iff_exists.1 (List.find?_isSome.2 ⟨r, hr, decide_eq_true hid⟩)

theorem changeConcept_eq_ok {id : String} {cells : List (Fin 13 × Cell)} :
    db.changeConcept id cells = .ok db' ↔
      hasText db.concepts ConceptTable.id id ∧
      ∃ rows, ConceptTable.schema.change db.concepts id cells = .ok rows ∧
        { db with concepts := rows } = db' := by
  simp [changeConcept, ite_throw_eq_ok, bind_eq_ok, pure, Except.pure]

theorem changePhrasing_eq_ok {id : String} {cells : List (Fin 11 × Cell)} :
    db.changePhrasing id cells = .ok db' ↔
      hasText db.phrasings PhrasingTable.id id ∧
      ∃ rows, PhrasingTable.schema.change db.phrasings id cells = .ok rows ∧
        { db with phrasings := rows } = db' := by
  simp [changePhrasing, ite_throw_eq_ok, bind_eq_ok, pure, Except.pure]

theorem insertInteraction_eq_ok {i : Interaction} :
    db.insertInteraction i = .ok db' ↔
      (∀ q ∈ db.interactions, q.get InteractionTable.id ≠ .text i.id) ∧
      hasText db.concepts ConceptTable.id i.conceptId ∧
      hasText db.phrasings PhrasingTable.id i.phrasingId ∧
      { db with interactions := db.interactions ++ [InteractionTable.row i] } = db' := by
  have hkey : InteractionTable.schema.key = InteractionTable.id := rfl
  have hid : (InteractionTable.row i).get InteractionTable.id = .text i.id := rfl
  simp only [insertInteraction, Schema.insert, InteractionTable.fit_row, bind_eq_ok,
    ite_throw_eq_ok, Except.ok.injEq, exists_eq_left', hkey, hid, pure, Except.pure]
  simp [and_assoc]

/-- The three writes of an answer, one after the other. -/
theorem record_eq_ok {p : ReviewPatch} :
    db.record p = .ok db' ↔
      ∃ concepts phrasings,
        hasText db.concepts ConceptTable.id p.conceptId ∧
        ConceptTable.schema.change db.concepts p.conceptId
          (ConceptTable.memoryCells p.memory ++
            [(ConceptTable.updatedAt, .ofInstant p.interaction.attemptedAt)]) = .ok concepts ∧
        hasText db.phrasings PhrasingTable.id p.phrasingId ∧
        PhrasingTable.schema.change db.phrasings p.phrasingId [
          (PhrasingTable.attemptCount, .ofWord p.attemptCount),
          (PhrasingTable.lastAttemptedAt, .ofInstant p.lastAttemptedAt)] = .ok phrasings ∧
        DatabaseStore.insertInteraction ⟨concepts, phrasings, db.interactions⟩ p.interaction =
          .ok db' := by
  simp only [record, bind_eq_ok, changeConcept_eq_ok, changePhrasing_eq_ok]
  constructor
  · rintro ⟨_, ⟨hc, concepts, hconcepts, rfl⟩, _, ⟨hp, phrasings, hphrasings, rfl⟩, h⟩
    exact ⟨concepts, phrasings, hc, hconcepts, hp, hphrasings, h⟩
  · rintro ⟨concepts, phrasings, hc, hconcepts, hp, hphrasings, h⟩
    exact ⟨_, ⟨hc, concepts, hconcepts, rfl⟩, _, ⟨hp, phrasings, hphrasings, rfl⟩, h⟩

/-! ## The cells of an answer -/

theorem not_mem_memoryCells (m : MemoryState) (v : Cell) :
    ConceptTable.schema.key ∉
      (ConceptTable.memoryCells m ++ [(ConceptTable.updatedAt, v)]).map Prod.fst := by
  show (0 : Fin 13) ∉ [5, 6, 7, 8, 9, 10, 11, 4]
  decide

theorem nodup_memoryCells (m : MemoryState) (v : Cell) :
    ((ConceptTable.memoryCells m ++ [(ConceptTable.updatedAt, v)]).map Prod.fst).Nodup := by
  show ([5, 6, 7, 8, 9, 10, 11, 4] : List (Fin 13)).Nodup
  decide

theorem not_mem_attemptCells (v w : Cell) :
    PhrasingTable.schema.key ∉ [(PhrasingTable.attemptCount, v),
      (PhrasingTable.lastAttemptedAt, w)].map Prod.fst := by
  show (0 : Fin 11) ∉ [6, 7]
  decide

theorem nodup_attemptCells (v w : Cell) :
    ([(PhrasingTable.attemptCount, v), (PhrasingTable.lastAttemptedAt, w)].map Prod.fst).Nodup := by
  show ([6, 7] : List (Fin 11)).Nodup
  decide

end DatabaseStore

end SpacedReview
