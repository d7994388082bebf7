import SpacedReview.Store.Tables

/-!
# The review database

A store that keeps its records as rows of three tables. A phrasing refers to a row of the table
of concepts, and an interaction to rows of both other tables. Times are compared as the texts
that they are kept as. A change that would break a reference, repeat an identifier or leave a
required column without a value is refused as a whole. `DatabaseStore.overwrite` changes a single
cell without going through the records.

## Main definitions

- `DatabaseStore` — the rows of the three tables, oldest first
- `DatabaseStore.due`, `phrasingsOf`, `recent`, `stats` — queries
- `DatabaseStore.insertConcept`, `insertPhrasing`, `setCanonical`, `archivePhrasing`, `record` —
  changes
- `DatabaseStore.overwrite` — a change from outside
-/

namespace SpacedReview

/-- The rows of the tables, oldest first. -/
structure DatabaseStore where
  concepts : List (Row 13)
  phrasings : List (Row 11)
  interactions : List (Row 8)
deriving DecidableEq

namespace DatabaseStore

/-- The database without rows. -/
def empty : DatabaseStore :=
  ⟨[], [], []⟩

/-- Some row has the text in a column. -/
def hasText {n : Nat} (rows : List (Row n)) (c : Fin n) (text : String) : Bool :=
  rows.any fun r => r.get c = .text text

/-- The row with an identifier. -/
def find? {n : Nat} (s : Schema n) (rows : List (Row n)) (id : String) : Option (Row n) :=
  rows.find? fun r => s.hasId r id

/-- The concept with an identifier. -/
def concept? (db : DatabaseStore) (id : String) : Except StoreError (Option Concept) :=
  match find? ConceptTable.schema db.concepts id with
  | none => .ok none
  | some r => (ConceptTable.read r).map some

/-- The phrasing with an identifier. -/
def phrasing? (db : DatabaseStore) (id : String) : Except StoreError (Option Phrasing) :=
  match find? PhrasingTable.schema db.phrasings id with
  | none => .ok none
  | some r => (PhrasingTable.read r).map some

/-- The row's concept is due: its due date, as a text, does not come after the instant's. -/
def isDue (now : Instant) (r : Row 13) : Bool :=
  match (r.get ConceptTable.nextReview).text? with
  | some t => t ≤ now.microStamp
  | none => false

/-- The row's learning state has exactly the name of a state. -/
def hasState (state : LearningState) (r : Row 13) : Bool :=
  r.get ConceptTable.learningState = .text state.name

/-- The order of rows by a text column; a column without a text comes first. -/
def compareBy {n : Nat} (c : Fin n) (q r : Row n) : Ordering :=
  compare (q.get c).text? (r.get c).text?

/-- The order of due concepts: new ones first, then by due date and identifier. -/
def compareDue (q r : Row 13) : Ordering :=
  ((compare (hasState .new r) (hasState .new q)).then
    (compareBy ConceptTable.nextReview q r)).then (compareBy ConceptTable.id q r)

/-- The order of phrasings: by age and identifier. -/
def compareAge (q r : Row 11) : Ordering :=
  (compareBy PhrasingTable.createdAt q r).then (compareBy PhrasingTable.id q r)

/-- The rows of the due concepts in order. -/
def dueRows (db : DatabaseStore) (now : Instant) : List (Row 13) :=
  (db.concepts.filter (isDue now)).mergeSort fun q r => compareDue q r ≠ .gt

/-- The due concepts in order. A limit cuts the rows before they are read. -/
def due (db : DatabaseStore) (now : Instant) (limit : Option Nat) :
    Except StoreError (List Concept) :=
  let rows := db.dueRows now
  (match limit with
    | none => rows
    | some n => rows.take n).mapM ConceptTable.read

/-- The phrasings of a concept in order. -/
def phrasingsOf (db : DatabaseStore) (conceptId : String) : Except StoreError (List Phrasing) :=
  ((db.phrasings.filter fun r => r.get PhrasingTable.conceptId = .text conceptId).mergeSort
    fun q r => compareAge q r ≠ .gt).mapM PhrasingTable.read

/-- The rows of the interactions with a phrasing, the latest first; of two at one time the one
    written later. -/
def recentRows (db : DatabaseStore) (phrasingId : String) : List (Row 8) :=
  ((db.interactions.filter fun r =>
    r.get InteractionTable.phrasingId = .text phrasingId).reverse).mergeSort
    fun q r => compareBy InteractionTable.attemptedAt r q ≠ .gt

/-- The latest interactions with a phrasing. -/
def recent (db : DatabaseStore) (phrasingId : String) (limit : Nat) :
    Except StoreError (List Interaction) :=
  ((db.recentRows phrasingId).take limit).mapM InteractionTable.read

/-- The number of concepts in a learning state. -/
def countState (db : DatabaseStore) (state : LearningState) : UInt64 :=
  UInt64.ofNat (db.concepts.countP (hasState state))

/-- The overview at an instant. -/
def stats (db : DatabaseStore) (now : Instant) : ReviewStats where
  totalConcepts := UInt64.ofNat db.concepts.length
  dueNow := UInt64.ofNat (db.concepts.countP (isDue now))
  newConcepts := db.countState .new
  learning := db.countState .learning
  review := db.countState .review
  relearning := db.countState .relearning
  totalPhrasings := UInt64.ofNat db.phrasings.length
  totalInteractions := UInt64.ofNat db.interactions.length

/-- The error of a reference to a row that is not there. -/
def brokenReference : StoreError :=
  .database "FOREIGN KEY constraint failed"

/-- The database with one more concept. -/
def insertConcept (db : DatabaseStore) (c : Concept) : Except StoreError DatabaseStore := do
  return { db with concepts := ← ConceptTable.schema.insert db.concepts (ConceptTable.row c) }

/-- The database with one more phrasing. -/
def insertPhrasing (db : DatabaseStore) (p : Phrasing) : Except StoreError DatabaseStore := do
  let phrasings ← PhrasingTable.schema.insert db.phrasings (PhrasingTable.row p)
  if !hasText db.concepts ConceptTable.id p.conceptId then throw brokenReference
  return { db with phrasings }

/-- The database with one more interaction. -/
def insertInteraction (db : DatabaseStore) (i : Interaction) :
    Except StoreError DatabaseStore := do
  let interactions ← InteractionTable.schema.insert db.interactions (InteractionTable.row i)
  if !hasText db.concepts ConceptTable.id i.conceptId ||
      !hasText db.phrasings PhrasingTable.id i.phrasingId then
    throw brokenReference
  return { db with interactions }

/-- The database with cells of a concept changed. -/
def changeConcept (db : DatabaseStore) (id : String) (cells : List (Fin 13 × Cell)) :
    Except StoreError DatabaseStore := do
  if !hasText db.concepts ConceptTable.id id then throw (.notFound id)
  return { db with concepts := ← ConceptTable.schema.change db.concepts id cells }

/-- The database with cells of a phrasing changed. -/
def changePhrasing (db : DatabaseStore) (id : String) (cells : List (Fin 11 × Cell)) :
    Except StoreError DatabaseStore := do
  if !hasText db.phrasings PhrasingTable.id id then throw (.notFound id)
  return { db with phrasings := ← PhrasingTable.schema.change db.phrasings id cells }

/-- The database with another preferred phrasing for a concept, which counts as updated at the
    instant. -/
def setCanonical (db : DatabaseStore) (conceptId : String) (phrasingId : Option String)
    (clock : Instant) : Except StoreError DatabaseStore :=
  db.changeConcept conceptId [
    (ConceptTable.canonicalPhrasing, .ofText? phrasingId),
    (ConceptTable.updatedAt, .ofInstant clock)]

/-- The database with a phrasing archived that was not archived before. -/
def archivePhrasing (db : DatabaseStore) (id : String) (now : Instant) :
    Except StoreError DatabaseStore :=
  match find? PhrasingTable.schema db.phrasings id with
  | none => .error (.notFound id)
  | some r =>
    if r.get PhrasingTable.archivedAt = .null then
      db.changePhrasing id [(PhrasingTable.archivedAt, .ofInstant now)]
    else .error (.notFound id)

/-- The database after one answer. The concept comes first, then the phrasing, then the
    interaction; the first of them that fails refuses the answer. -/
def record (db : DatabaseStore) (p : ReviewPatch) : Except StoreError DatabaseStore := do
  let db ← db.changeConcept p.conceptId
    (ConceptTable.memoryCells p.memory ++
      [(ConceptTable.updatedAt, .ofInstant p.interaction.attemptedAt)])
  let db ← db.changePhrasing p.phrasingId [
    (PhrasingTable.attemptCount, .ofWord p.attemptCount),
    (PhrasingTable.lastAttemptedAt, .ofInstant p.lastAttemptedAt)]
  db.insertInteraction p.interaction

instance : ReviewStore DatabaseStore where
  concept? := concept?
  due := due
  phrasingsOf := phrasingsOf
  phrasing? := phrasing?
  recent := recent
  stats db now := .ok (db.stats now)
  record := record

instance : Catalogued DatabaseStore where
  insertConcept := insertConcept
  insertPhrasing := insertPhrasing
  setCanonical := setCanonical
  archivePhrasing := archivePhrasing

/-- A cell that refers to a row refers to one that is there. -/
def refers {n : Nat} (s : Schema n) (rows : List (Row n)) (v : Cell) : Bool :=
  v = .null || rows.any fun r => r.get s.key = v

/-- Every reference leads to a row. -/
def isIntact (db : DatabaseStore) : Bool :=
  let toConcept := refers ConceptTable.schema db.concepts
  let toPhrasing := refers PhrasingTable.schema db.phrasings
  db.phrasings.all (fun r => toConcept (r.get PhrasingTable.conceptId)) &&
    db.interactions.all fun r =>
      toConcept (r.get InteractionTable.conceptId) &&
        toPhrasing (r.get InteractionTable.phrasingId)

/-- The rows of a table with one cell changed in the row that has an identifier, and the
    number of rows that were changed. -/
def overwriteRows {n : Nat} (s : Schema n) (rows : List (Row n)) (id : String)
    (column : String) (v : Cell) : Except StoreError (List (Row n) × Nat) := do
  match (List.finRange n).find? fun c => (s.columns.get c).name = column with
  | none => throw (.database ("no such column: " ++ column))
  | some c =>
    let changed ← s.change rows id [(c, v)]
    if (find? s rows id).isSome ∧ c = s.key ∧ v ≠ .null ∧ s.keep c v ≠ .text id ∧
        rows.any (fun r => r.get s.key = s.keep c v) then
      throw s.repeated
    return (changed, rows.countP fun r => s.hasId r id)

/-- The database with one cell changed from outside, and the number of rows that were
    changed. -/
def overwrite (db : DatabaseStore) (table id column : String) (v : Cell) :
    Except StoreError (DatabaseStore × Nat) := do
  let (db, count) ← match table with
    | "concepts" => do
      let (rows, count) ← overwriteRows ConceptTable.schema db.concepts id column v
      pure ({ db with concepts := rows }, count)
    | "phrasings" => do
      let (rows, count) ← overwriteRows PhrasingTable.schema db.phrasings id column v
      pure ({ db with phrasings := rows }, count)
    | "interactions" => do
      let (rows, count) ← overwriteRows InteractionTable.schema db.interactions id column v
      pure ({ db with interactions := rows }, count)
    | _ => throw (.database ("no such table: " ++ table))
  if db.isIntact then return (db, count) else throw brokenReference

end DatabaseStore

end SpacedReview
