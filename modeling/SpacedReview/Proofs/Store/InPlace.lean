import SpacedReview.Proofs.Store.Failures
import SpacedReview.Proofs.Store.Volatile

/-!
# Stores that are changed in place

A store is changed in place, one write after the other, and what was written before a failure is
there after it, unless something takes it back. The volatile store looks for everything that could
be missing before it writes; the database puts its three statements into a transaction. Both record
an answer as `ReviewStore.record` says and leave the store as it was when they fail.

## Main definitions

- `InPlace` — operations on a store in place
- `InPlace.statement`, `InPlace.transaction` — what a database does as a whole or not at all
- `VolatileStore.recordInPlace`, `DatabaseStore.recordInPlace` — recording an answer step by step

## Main statements

- `InPlace.Performs.transaction` — a transaction that fails changes nothing
- `VolatileStore.recordInPlace_on`, `DatabaseStore.recordInPlace_on` — recording step by step is
  recording
-/

namespace SpacedReview

/-- An operation that works on a store in place: the store is what it has left behind, also when
    it has failed. -/
abbrev InPlace (σ α : Type) := ExceptT StoreError (StateM σ) α

namespace InPlace

variable {σ α β : Type}

/-- The answer of an operation on a store, and the store after it. -/
def on (x : InPlace σ α) (s : σ) : Except StoreError α × σ :=
  x.run.run s

/-- What was done before an operation fails stays done. -/
theorem on_bind (x : InPlace σ α) (f : α → InPlace σ β) (s : σ) :
    (x >>= f).on s = match x.on s with
      | (.ok a, t) => (f a).on t
      | (.error err, t) => (.error err, t) := by
  simp only [on, ExceptT.run_bind, StateT.run_bind]
  show (match x.run.run s with | (r, t) => _ : Except StoreError β × σ) = _
  rcases x.run.run s with ⟨_ | _, _⟩ <;> rfl

/-- The operation goes on only if the store satisfies a condition. -/
def check (holds : σ → Bool) (err : StoreError) : InPlace σ Unit :=
  fun s => (if holds s then .ok () else .error err, s)

theorem on_check_bind (holds : σ → Bool) (err : StoreError) (f : Unit → InPlace σ β) (s : σ) :
    (check holds err >>= f).on s = if holds s then (f ()).on s else (.error err, s) := by
  have hcheck : (check holds err).on s = (if holds s then .ok () else .error err, s) := rfl
  rw [on_bind, hcheck]
  cases holds s <;> rfl

/-- A single statement: it changes the store or fails, and then has changed nothing. -/
def statement (f : σ → Except StoreError (α × σ)) : InPlace σ α :=
  fun s => match f s with
    | .ok (a, t) => (.ok a, t)
    | .error err => (.error err, s)

/-- Statements that take effect together: if one of them fails, the store is put back. -/
def transaction (body : InPlace σ α) : InPlace σ α :=
  fun s => match body.on s with
    | (.ok a, t) => (.ok a, t)
    | (.error err, _) => (.error err, s)

theorem statement_on (f : σ → Except StoreError (α × σ)) (s : σ) :
    (statement f).on s = match f s with
      | .ok (a, t) => (.ok a, t)
      | .error err => (.error err, s) :=
  rfl

theorem transaction_on (body : InPlace σ α) (s : σ) :
    (transaction body).on s = match body.on s with
      | (.ok a, t) => (.ok a, t)
      | (.error err, _) => (.error err, s) :=
  rfl

/-- The end of an operation that leaves the store as it is when it fails. -/
def ending (s : σ) : Except StoreError σ → Except StoreError Unit × σ
  | .ok t => (.ok (), t)
  | .error err => (.error err, s)

theorem eq_of_ending_error {s t : σ} {r : Except StoreError σ} {err : StoreError}
    (h : ending s r = (.error err, t)) : t = s := by
  cases r with
  | ok u => cases h
  | error e =>
    obtain ⟨-, h⟩ := Prod.mk.inj h
    exact h.symm

theorem eq_ok_of_ending {s t : σ} {r : Except StoreError σ} (h : ending s r = (.ok (), t)) :
    r = .ok t := by
  cases r with
  | ok u =>
    obtain ⟨-, rfl⟩ := Prod.mk.inj h
    rfl
  | error e => cases h

/-- An operation changes the store as a function says and fails where that fails. Where it fails, it
    can leave anything behind. -/
structure Performs (x : InPlace σ Unit) (f : σ → Except StoreError σ) : Prop where
  ok : ∀ s t, f s = .ok t → x.on s = (.ok (), t)
  error : ∀ s err, f s = .error err → (x.on s).1 = .error err

theorem Performs.bind {x y : InPlace σ Unit} {f g : σ → Except StoreError σ} (hx : x.Performs f)
    (hy : y.Performs g) : Performs (do x; y) fun s => f s >>= g where
  ok := by
    intro s u h
    obtain ⟨t, hf, hg⟩ := bind_eq_ok.1 h
    rw [on_bind, hx.ok s t hf]
    exact hy.ok t u hg
  error := by
    intro s err h
    rw [on_bind]
    rcases bind_eq_error h with hf | ⟨t, hf, hg⟩
    · have hon := hx.error s err hf
      generalize x.on s = r at hon
      obtain ⟨_, t⟩ := r
      obtain rfl := hon
      rfl
    · rw [hx.ok s t hf]
      exact hy.error t err hg

/-- A transaction leaves the store as it is when any part of it fails. -/
theorem Performs.transaction {x : InPlace σ Unit} {f : σ → Except StoreError σ}
    (h : x.Performs f) (s : σ) : (transaction x).on s = ending s (f s) := by
  rw [transaction_on]
  cases hf : f s with
  | ok t =>
    rw [h.ok s t hf]
    rfl
  | error err =>
    have hon := h.error s err hf
    generalize x.on s = r at hon
    obtain ⟨_, t⟩ := r
    obtain rfl := hon
    rfl

theorem performs_statement (f : σ → Except StoreError σ) :
    Performs (statement fun s => (f s).map fun t => ((), t)) f where
  ok := by
    intro s t h
    have hon : (f s).map (fun t => ((), t)) = .ok ((), t) := by rw [h]; rfl
    rw [statement_on, hon]
  error := by
    intro s err h
    have hon : (f s).map (fun t => ((), t)) = .error err := by rw [h]; rfl
    rw [statement_on, hon]

end InPlace

/-! ## The volatile store -/

namespace VolatileStore

/-- An answer is recorded in place. Both records are looked for before anything is written. -/
def recordInPlace (p : ReviewPatch) : InPlace VolatileStore Unit := do
  .check (fun s => Keyed.has Concept.id s.concepts p.conceptId) (.notFound p.conceptId)
  .check (fun s => Keyed.has Phrasing.id s.phrasings p.phrasingId) (.notFound p.phrasingId)
  modify fun s => { s with concepts := Keyed.change Concept.id s.concepts p.conceptId p.onConcept }
  modify fun s =>
    { s with phrasings := Keyed.change Phrasing.id s.phrasings p.phrasingId p.onPhrasing }
  modify fun s => { s with log := s.log ++ [p.interaction] }

/-- Recording in place ends with the recorded store or leaves the store as it is. -/
theorem recordInPlace_on (p : ReviewPatch) (s : VolatileStore) :
    (recordInPlace p).on s = InPlace.ending s (s.record p) := by
  rw [recordInPlace, InPlace.on_check_bind, InPlace.on_check_bind]
  by_cases hc : Keyed.has Concept.id s.concepts p.conceptId
  · by_cases hp : Keyed.has Phrasing.id s.phrasings p.phrasingId
    · rw [if_pos hc, if_pos hp, record_eq_ok.2 ⟨hc, hp, rfl⟩]
      rfl
    · simp [record, hc, hp, InPlace.ending]
  · simp [record, hc, InPlace.ending]

end VolatileStore

/-! ## The database -/

namespace DatabaseStore

/-- The rows of a table are overwritten by one statement. It answers how many rows it has
    changed. -/
def update {n : Nat} (s : Schema n) (rows : DatabaseStore → List (Row n))
    (withRows : DatabaseStore → List (Row n) → DatabaseStore) (id : String)
    (cells : List (Fin n × Cell)) : InPlace DatabaseStore Nat :=
  .statement fun db =>
    (s.change (rows db) id cells).map fun changed =>
      ((rows db).countP (s.hasId · id), withRows db changed)

/-- The same for a row that must be there: the count is looked at after the update. -/
def updateOne {n : Nat} (s : Schema n) (rows : DatabaseStore → List (Row n))
    (withRows : DatabaseStore → List (Row n) → DatabaseStore) (id : String)
    (cells : List (Fin n × Cell)) : InPlace DatabaseStore Unit := do
  let changed ← update s rows withRows id cells
  .check (fun _ => changed ≠ 0) (.notFound id)

/-- An answer is recorded in place by three statements of one transaction. -/
def recordInPlace (p : ReviewPatch) : InPlace DatabaseStore Unit := .transaction do
  updateOne ConceptTable.schema concepts (fun db rows => { db with concepts := rows }) p.conceptId
    (ConceptTable.memoryCells p.memory ++
      [(ConceptTable.updatedAt, .ofInstant p.interaction.attemptedAt)])
  updateOne PhrasingTable.schema phrasings (fun db rows => { db with phrasings := rows })
    p.phrasingId [
      (PhrasingTable.attemptCount, .ofWord p.attemptCount),
      (PhrasingTable.lastAttemptedAt, .ofInstant p.lastAttemptedAt)]
  .statement fun db => (db.insertInteraction p.interaction).map fun db => ((), db)

theorem countP_hasId_ne_zero {n : Nat} {s : Schema n} {rows : List (Row n)} {id : String} :
    rows.countP (s.hasId · id) ≠ 0 ↔ hasText rows s.key id := by
  simp [hasText, Schema.hasId, List.countP_eq_zero]

/-- A change of a row that is not there changes nothing. -/
theorem change_of_not_hasText {n : Nat} {s : Schema n} {rows : List (Row n)} {id : String}
    (h : ¬ hasText rows s.key id) (cells : List (Fin n × Cell)) :
    s.change rows id cells = .ok rows := by
  rw [Schema.change, mapM_eq_ok, List.forall₂_same]
  intro r hr
  have hid : ¬ s.hasId r id := fun hid => h (hasText_iff.2 ⟨r, hr, of_decide_eq_true hid⟩)
  rw [if_neg hid]

theorem updateOne_on {n : Nat} {s : Schema n} {rows : DatabaseStore → List (Row n)}
    {withRows : DatabaseStore → List (Row n) → DatabaseStore} {id : String}
    {cells : List (Fin n × Cell)} (db : DatabaseStore) :
    (updateOne s rows withRows id cells).on db = match s.change (rows db) id cells with
      | .ok changed =>
        (if (rows db).countP (s.hasId · id) ≠ 0 then .ok () else .error (.notFound id),
          withRows db changed)
      | .error err => (.error err, db) := by
  rw [updateOne, InPlace.on_bind, update, InPlace.statement_on]
  cases s.change (rows db) id cells with
  | error err => rfl
  | ok changed =>
    show (if decide ((rows db).countP (s.hasId · id) ≠ 0) then _ else _, _) = _
    simp only [decide_eq_true_eq]

/-- The count decides whether the row is there, before the update as after it. -/
theorem performs_updateOne {n : Nat} {s : Schema n} {rows : DatabaseStore → List (Row n)}
    {withRows : DatabaseStore → List (Row n) → DatabaseStore} (id : String)
    (cells : List (Fin n × Cell)) :
    (updateOne s rows withRows id cells).Performs fun db => do
      if !hasText (rows db) s.key id then throw (.notFound id)
      return withRows db (← s.change (rows db) id cells) where
  ok := by
    intro db db' h
    simp only [ite_throw_eq_ok, bind_eq_ok, pure, Except.pure, Except.ok.injEq] at h
    obtain ⟨hid, changed, hchange, rfl⟩ := h
    rw [updateOne_on, hchange, if_pos (countP_hasId_ne_zero.2 (by simpa using hid))]
  error := by
    intro db err h
    rw [updateOne_on]
    by_cases hid : hasText (rows db) s.key id
    · simp only [hid, Bool.not_true, Bool.false_eq_true, if_false] at h
      rcases bind_eq_error h with hchange | ⟨changed, -, h⟩
      · rw [hchange]
      · cases h
    · simp only [hid, Bool.not_false, if_true] at h
      obtain rfl := Except.error.inj h
      rw [change_of_not_hasText hid, if_neg (mt countP_hasId_ne_zero.1 hid)]

/-- Recording in place ends with the recorded database or leaves the database as it is. -/
theorem recordInPlace_on (p : ReviewPatch) (db : DatabaseStore) :
    (recordInPlace p).on db = InPlace.ending db (db.record p) :=
  ((performs_updateOne _ _).bind ((performs_updateOne _ _).bind
    (InPlace.performs_statement _))).transaction db

end DatabaseStore

end SpacedReview
