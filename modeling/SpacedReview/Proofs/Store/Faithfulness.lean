import SpacedReview.Proofs.Json.TextLists
import SpacedReview.Proofs.Store.Retrieval
import SpacedReview.Proofs.Time.StrictForm

/-!
# Records and the rows they are read from

Cells can be overwritten from outside with anything. A record is faithful to its row if each cell
holds what the record says: a text as it stands, a number, the instant that a timestamp denotes,
the texts that a list spells. A row that holds anything else is an error of every query that reads
it, with two exceptions. A learning state that is none of the four names is guessed, from a name
in other letters or as a new concept, and an elapsed time below zero is taken for zero.

## Main definitions

- `ConceptTable.Faithful`, `PhrasingTable.Faithful`, `InteractionTable.Faithful` — a record says
  what its row holds
- `ConceptTable.Guessed`, `InteractionTable.Clamped` — the exceptions
- `Returns`, `Finds` — what queries return of their rows

## Main statements

- `ConceptTable.read_iff`, `PhrasingTable.read_iff`, `InteractionTable.read_iff` — reading one row
- `DatabaseStore.readsRows` — every query of every database
-/

namespace SpacedReview

/-! ## Cells -/

namespace Cell

/-- The cell holds the float, perhaps as an integer. -/
def HoldsReal (v : Cell) (x : Float) : Prop :=
  v = .real x ∨ ∃ k, v = .integer k ∧ x = Float.ofInt k

/-- The cell holds the truth value: zero is false, and every other integer is true. -/
def HoldsBool (v : Cell) (b : Bool) : Prop :=
  ∃ k, v = .integer k ∧ (b = true ↔ k ≠ 0)

/-- The cell holds a text that denotes the instant. -/
def HoldsInstant (v : Cell) (t : Instant) : Prop :=
  ∃ text, v = .text text ∧ Instant.Denotes text t

/-- The cell holds nothing for no instant, and a text that denotes it for an instant. -/
def HoldsInstant? (v : Cell) : Option Instant → Prop
  | none => v = .null
  | some t => v.HoldsInstant t

/-- The cell holds a text that spells the list of texts. -/
def HoldsTexts (v : Cell) (ss : List String) : Prop :=
  ∃ text, v = .text text ∧ Json.SpellsTexts text.toList ss

end Cell

namespace Schema

variable {n : Nat} {s : Schema n} {r : Row n} {c : Fin n}

theorem text?_eq_ok {o : Option String} : s.text? r c = .ok o ↔ r.get c = .ofText? o := by
  cases o with
  | some x => exact text?_eq_ok_some
  | none =>
    unfold text?
    cases h : r.get c <;> simp [text, h, Except.map, Cell.ofText?]

theorem real_eq_ok {x : Float} : s.real r c = .ok x ↔ (r.get c).HoldsReal x := by
  unfold real Cell.HoldsReal
  cases r.get c <;> simp [eq_comm]

theorem integer_eq_ok {k : Int} : s.integer r c = .ok k ↔ r.get c = .integer k := by
  unfold integer
  cases r.get c <;> simp

theorem word32_eq_ok {k : UInt32} : s.word32 r c = .ok k ↔ r.get c = .ofWord k := by
  constructor
  · intro h
    obtain ⟨i, hi, h⟩ := bind_eq_ok.1 h
    rw [integer_eq_ok] at hi
    split at h
    · rename_i hrange
      obtain rfl := Except.ok.inj h
      have hlt : i.toNat < 2 ^ 32 := by
        have := hrange.2
        simp only [Numeral.word32Limit] at this
        omega
      rw [hi, Cell.ofWord, UInt32.toNat_ofNat_of_lt' hlt, Int.toNat_of_nonneg hrange.1]
    · cases h
  · exact word32_ofWord

theorem bool_eq_ok {b : Bool} : s.bool r c = .ok b ↔ (r.get c).HoldsBool b := by
  simp only [bool, bind_eq_ok, integer_eq_ok, pure, Except.pure, Except.ok.injEq, Cell.HoldsBool]
  refine exists_congr fun k => and_congr_right fun _ => ?_
  cases b <;> simp

theorem instantOf_eq_ok {x : String} {t : Instant} :
    s.instantOf c x = .ok t ↔ Instant.Denotes x t := by
  rw [← Instant.readStrict?_eq_some, instantOf]
  split <;> simp_all

theorem instant_holds {t : Instant} : s.instant r c = .ok t ↔ (r.get c).HoldsInstant t := by
  simp only [instant_eq_ok, text_eq_ok, instantOf_eq_ok, Cell.HoldsInstant]

theorem instant?_holds {o : Option Instant} :
    s.instant? r c = .ok o ↔ (r.get c).HoldsInstant? o := by
  cases o with
  | none => exact instant?_eq_ok_none
  | some t =>
    rw [instant?, bind_eq_ok]
    constructor
    · rintro ⟨_ | x, hx, h⟩
      · cases h
      · obtain ⟨t', ht', h⟩ := bind_eq_ok.1 h
        obtain rfl := Option.some.inj (Except.ok.inj h)
        exact ⟨x, text?_eq_ok_some.1 hx, instantOf_eq_ok.1 ht'⟩
    · rintro ⟨x, hx, ht⟩
      exact ⟨some x, text?_eq_ok_some.2 hx, bind_eq_ok.2 ⟨t, instantOf_eq_ok.2 ht, rfl⟩⟩

end Schema

/-! ## Concepts -/

namespace LearningState

theorem fold_name (s : LearningState) : Text.fold s.name = s.name := by
  cases s <;> decide +kernel

theorem eq_of_name_eq {s u : LearningState} (h : s.name = u.name) : s = u := by
  cases s <;> cases u <;> first | rfl | exact absurd h (by decide)

/-- A name means the state that has it in any letters, or else a new concept. -/
theorem ofName_eq_iff {name : String} {s : LearningState} : ofName name = s ↔
    Text.EqualFold s.name name ∨ s = .new ∧ ∀ u : LearningState, ¬ Text.EqualFold u.name name := by
  have hall (u : LearningState) : u ∈ all := by cases u <;> decide
  cases hfind : all.find? fun u => Text.EqualFold u.name name with
  | none =>
    have hnone (u : LearningState) : ¬ Text.EqualFold u.name name := by
      simpa using List.find?_eq_none.1 hfind u (hall u)
    have hnew : ofName name = .new := by rw [ofName, hfind, Option.getD_none]
    rw [hnew]
    exact ⟨fun h => .inr ⟨h.symm, hnone⟩, fun h => (h.resolve_left (hnone s)).1.symm⟩
  | some u =>
    have hu : Text.EqualFold u.name name := by simpa using List.find?_some hfind
    have heq : ofName name = u := by rw [ofName, hfind, Option.getD_some]
    rw [heq]
    constructor
    · rintro rfl
      exact .inl hu
    · rintro (hs | ⟨-, hnone⟩)
      · have hfold : Text.fold u.name = Text.fold s.name := hu.trans hs.symm
        rw [fold_name, fold_name] at hfold
        exact eq_of_name_eq hfold
      · exact absurd hu (hnone u)

end LearningState

namespace ConceptTable

variable {r : Row 13} {c : Concept}

/-- The record says what all cells of its row hold but that of the learning state. -/
structure Agrees (r : Row 13) (c : Concept) : Prop where
  id : r.get ConceptTable.id = .text c.id
  title : r.get ConceptTable.title = .text c.title
  description : r.get ConceptTable.description = .ofText? c.description
  stability : (r.get ConceptTable.stability).HoldsReal c.memory.stability
  difficulty : (r.get ConceptTable.difficulty).HoldsReal c.memory.difficulty
  reps : r.get ConceptTable.reps = .ofWord c.memory.reps
  lapses : r.get ConceptTable.lapses = .ofWord c.memory.lapses
  lastReview : (r.get ConceptTable.lastReview).HoldsInstant? c.memory.lastReview
  nextReview : (r.get ConceptTable.nextReview).HoldsInstant c.memory.nextReview
  canonicalPhrasing : r.get ConceptTable.canonicalPhrasing = .ofText? c.canonicalPhrasing
  createdAt : (r.get ConceptTable.createdAt).HoldsInstant c.createdAt
  updatedAt : (r.get ConceptTable.updatedAt).HoldsInstant c.updatedAt

/-- The record says what its row holds. -/
def Faithful (r : Row 13) (c : Concept) : Prop :=
  Agrees r c ∧ r.get learningState = .text c.memory.state.name

/-- The row holds a learning state that is none of the four names. The record has the state with
    that name in other letters, and is new if there is none; all else it says as the row does. -/
def Guessed (r : Row 13) (c : Concept) : Prop :=
  Agrees r c ∧ ∃ name, r.get learningState = .text name ∧ (∀ s : LearningState, name ≠ s.name) ∧
    (Text.EqualFold c.memory.state.name name ∨
      c.memory.state = .new ∧ ∀ s : LearningState, ¬ Text.EqualFold s.name name)

theorem read_iff_agrees : read r = .ok c ↔ Agrees r c ∧
    ∃ name, r.get learningState = .text name ∧ LearningState.ofName name = c.memory.state := by
  simp only [read_eq_ok, Schema.text_eq_ok, Schema.text?_eq_ok, Schema.real_eq_ok,
    Schema.word32_eq_ok, Schema.instant_holds, Schema.instant?_holds]
  constructor
  · rintro ⟨hid, htitle, hdescription, hstate, hstability, hdifficulty, hreps, hlapses, hlast,
      hnext, hcanonical, hcreated, hupdated⟩
    exact ⟨⟨hid, htitle, hdescription, hstability, hdifficulty, hreps, hlapses, hlast, hnext,
      hcanonical, hcreated, hupdated⟩, hstate⟩
  · rintro ⟨⟨hid, htitle, hdescription, hstability, hdifficulty, hreps, hlapses, hlast, hnext,
      hcanonical, hcreated, hupdated⟩, hstate⟩
    exact ⟨hid, htitle, hdescription, hstate, hstability, hdifficulty, hreps, hlapses, hlast,
      hnext, hcanonical, hcreated, hupdated⟩

/-- A row is read as the records that are faithful to it and as those that are guessed. -/
theorem read_iff : read r = .ok c ↔ Faithful r c ∨ Guessed r c := by
  rw [read_iff_agrees, Faithful, Guessed, ← and_or_left]
  refine and_congr_right fun _ => ?_
  constructor
  · rintro ⟨name, hname, hstate⟩
    by_cases hexact : ∃ s : LearningState, name = s.name
    · obtain ⟨s, rfl⟩ := hexact
      obtain rfl : s = c.memory.state := by
        rw [← hstate]
        exact (LearningState.ofName_eq_iff.2 (.inl rfl)).symm
      exact .inl hname
    · exact .inr ⟨name, hname, not_exists.1 hexact, LearningState.ofName_eq_iff.1 hstate⟩
  · rintro (hname | ⟨name, hname, -, hstate⟩)
    · exact ⟨_, hname, LearningState.ofName_eq_iff.2 (.inl rfl)⟩
    · exact ⟨name, hname, LearningState.ofName_eq_iff.2 hstate⟩

end ConceptTable

/-! ## Phrasings -/

namespace PhrasingTable

variable {r : Row 11} {p : Phrasing}

/-- The record says what its row holds. -/
structure Faithful (r : Row 11) (p : Phrasing) : Prop where
  id : r.get PhrasingTable.id = .text p.id
  conceptId : r.get PhrasingTable.conceptId = .text p.conceptId
  question : r.get PhrasingTable.question = .text p.question
  options : (r.get PhrasingTable.options).HoldsTexts p.options
  correctAnswer : r.get PhrasingTable.correctAnswer = .text p.correctAnswer
  explanation : r.get PhrasingTable.explanation = .ofText? p.explanation
  attemptCount : r.get PhrasingTable.attemptCount = .ofWord p.attemptCount
  lastAttemptedAt : (r.get PhrasingTable.lastAttemptedAt).HoldsInstant? p.lastAttemptedAt
  createdAt : (r.get PhrasingTable.createdAt).HoldsInstant p.createdAt
  archivedAt : (r.get PhrasingTable.archivedAt).HoldsInstant? p.archivedAt
  deletedAt : (r.get PhrasingTable.deletedAt).HoldsInstant? p.deletedAt

theorem readOptions_eq_ok {os : List String} :
    readOptions r = .ok os ↔ (r.get options).HoldsTexts os := by
  rw [readOptions, bind_eq_ok]
  refine exists_congr fun text => and_congr Schema.text_eq_ok ?_
  rw [← Json.optionsOfJson?_read?]
  cases (Json.read? text).bind Phrasing.optionsOfJson? <;>
    simp [pure, Except.pure, throw, throwThe, MonadExceptOf.throw]

/-- A row is read as the records that are faithful to it. -/
theorem read_iff : read r = .ok p ↔ Faithful r p := by
  simp only [read_eq_ok, Schema.text_eq_ok, Schema.text?_eq_ok, Schema.word32_eq_ok,
    Schema.instant_holds, Schema.instant?_holds, readOptions_eq_ok]
  constructor
  · rintro ⟨hoptions, hid, hconcept, hquestion, hanswer, hexplanation, hcount, hlast, hcreated,
      harchived, hdeleted⟩
    exact ⟨hid, hconcept, hquestion, hoptions, hanswer, hexplanation, hcount, hlast, hcreated,
      harchived, hdeleted⟩
  · rintro ⟨hid, hconcept, hquestion, hoptions, hanswer, hexplanation, hcount, hlast, hcreated,
      harchived, hdeleted⟩
    exact ⟨hoptions, hid, hconcept, hquestion, hanswer, hexplanation, hcount, hlast, hcreated,
      harchived, hdeleted⟩

end PhrasingTable

/-! ## Interactions -/

namespace InteractionTable

variable {r : Row 8} {i : Interaction}

/-- The record says what all cells of its row hold but that of the elapsed time. -/
structure Agrees (r : Row 8) (i : Interaction) : Prop where
  id : r.get InteractionTable.id = .text i.id
  conceptId : r.get InteractionTable.conceptId = .text i.conceptId
  phrasingId : r.get InteractionTable.phrasingId = .text i.phrasingId
  userAnswer : r.get InteractionTable.userAnswer = .text i.userAnswer
  isCorrect : (r.get InteractionTable.isCorrect).HoldsBool i.isCorrect
  sessionId : r.get InteractionTable.sessionId = .ofText? i.sessionId
  attemptedAt : (r.get InteractionTable.attemptedAt).HoldsInstant i.attemptedAt

/-- The record says what its row holds. -/
def Faithful (r : Row 8) (i : Interaction) : Prop :=
  Agrees r i ∧ r.get elapsedMs = .integer i.elapsedMs.toNat

/-- The row holds an elapsed time below zero, which the record has as zero. -/
def Clamped (r : Row 8) (i : Interaction) : Prop :=
  Agrees r i ∧ ∃ k < 0, r.get elapsedMs = .integer k ∧ i.elapsedMs = 0

/-- The row's elapsed time is a number that a cell can hold. -/
def InRange (r : Row 8) : Prop :=
  ∀ k, r.get elapsedMs = .integer k → k ≤ Cell.integerRange.2

theorem read_iff_agrees : read r = .ok i ↔ Agrees r i ∧
    ∃ k, r.get elapsedMs = .integer k ∧ UInt64.ofNat k.toNat = i.elapsedMs := by
  simp only [read_eq_ok, Schema.text_eq_ok, Schema.text?_eq_ok, Schema.bool_eq_ok,
    Schema.integer_eq_ok, Schema.instant_holds]
  constructor
  · rintro ⟨hid, hconcept, hphrasing, hanswer, hcorrect, helapsed, hsession, hattempted⟩
    exact ⟨⟨hid, hconcept, hphrasing, hanswer, hcorrect, hsession, hattempted⟩, helapsed⟩
  · rintro ⟨⟨hid, hconcept, hphrasing, hanswer, hcorrect, hsession, hattempted⟩, helapsed⟩
    exact ⟨hid, hconcept, hphrasing, hanswer, hcorrect, helapsed, hsession, hattempted⟩

/-- A row is read as the records that are faithful to it and as those that have its elapsed time as
    zero. -/
theorem read_iff (hrange : InRange r) : read r = .ok i ↔ Faithful r i ∨ Clamped r i := by
  rw [read_iff_agrees, Faithful, Clamped, ← and_or_left]
  refine and_congr_right fun _ => ?_
  constructor
  · rintro ⟨k, hk, helapsed⟩
    rcases Int.lt_or_le k 0 with hneg | hpos
    · have hzero : k.toNat = 0 := by omega
      rw [hzero] at helapsed
      exact .inr ⟨k, hneg, hk, helapsed.symm⟩
    · have hlt : k.toNat < 2 ^ 64 := by
        have hle : k ≤ 9223372036854775807 := hrange k hk
        omega
      refine .inl ?_
      rw [hk, ← helapsed, UInt64.toNat_ofNat_of_lt' hlt, Int.toNat_of_nonneg hpos]
  · rintro (hk | ⟨k, hneg, hk, hzero⟩)
    · exact ⟨_, hk, by rw [Int.toNat_natCast, UInt64.ofNat_toNat]⟩
    · have hnat : k.toNat = 0 := by omega
      exact ⟨k, hk, by rw [hnat, hzero]; rfl⟩

end InteractionTable

/-! ## Queries -/

/-- The query returns the records that the rows are read as, and an error exactly if one of the rows
    is read as none. -/
structure Returns {ρ α : Type} (Reads : ρ → α → Prop) (rows : List ρ)
    (query : Except StoreError (List α)) : Prop where
  ok : ∀ as, query = .ok as ↔ List.Forall₂ Reads rows as
  error : (∃ e, query = .error e) ↔ ∃ r ∈ rows, ∀ a, ¬ Reads r a

/-- The query returns the record that the row is read as, if there is a row, and an error exactly if
    it is read as none. -/
structure Finds {ρ α : Type} (Reads : ρ → α → Prop) (row : Option ρ)
    (query : Except StoreError (Option α)) : Prop where
  ok : ∀ a, query = .ok a ↔ Option.Rel Reads row a
  error : (∃ e, query = .error e) ↔ ∃ r ∈ row, ∀ a, ¬ Reads r a

section Queries

variable {ρ α : Type} {Reads : ρ → α → Prop} {read : ρ → Except StoreError α}

theorem exists_error_iff {ε β : Type} {x : Except ε β} :
    (∃ e, x = .error e) ↔ ¬ ∃ b, x = .ok b := by
  cases x <;> simp

theorem returns_mapM {rows : List ρ} (h : ∀ r ∈ rows, ∀ a, read r = .ok a ↔ Reads r a) :
    Returns Reads rows (rows.mapM read) where
  ok as := by
    rw [mapM_eq_ok]
    induction rows generalizing as with
    | nil => simp only [List.forall₂_nil_left_iff]
    | cons r rows ih =>
      simp only [List.forall₂_cons_left_iff, h r List.mem_cons_self,
        ih fun q hq => h q (List.mem_cons_of_mem r hq)]
  error := by
    rw [exists_error_iff, exists_mapM_eq_ok]
    push Not
    refine exists_congr fun r => and_congr_right fun hr => forall_congr' fun a => ?_
    exact not_congr (h r hr a)

theorem finds_elim {row : Option ρ} (h : ∀ r a, read r = .ok a ↔ Reads r a) :
    Finds Reads row (row.elim (.ok none) fun r => (read r).map some) where
  ok a := by
    cases row with
    | none => cases a <;> simp
    | some r => cases a <;> simp [map_eq_ok, h]
  error := by
    cases row with
    | none => simp
    | some r =>
      rw [exists_error_iff]
      simp [map_eq_ok, h]

end Queries

namespace DatabaseStore

variable {db : DatabaseStore}

theorem concept?_eq_elim (id : String) : db.concept? id =
    (find? ConceptTable.schema db.concepts id).elim (.ok none)
      fun r => (ConceptTable.read r).map some := by
  unfold concept?
  cases find? ConceptTable.schema db.concepts id <;> rfl

theorem phrasing?_eq_elim (id : String) : db.phrasing? id =
    (find? PhrasingTable.schema db.phrasings id).elim (.ok none)
      fun r => (PhrasingTable.read r).map some := by
  unfold phrasing?
  cases find? PhrasingTable.schema db.phrasings id <;> rfl

/-- The rows of the phrasings of a concept in order. -/
def phrasingRows (db : DatabaseStore) (conceptId : String) : List (Row 11) :=
  (db.phrasings.filter fun r => r.get PhrasingTable.conceptId = .text conceptId).mergeSort
    fun q r => compareAge q r ≠ .gt

theorem due_eq_mapM (now : Instant) (limit : Option Nat) : db.due now limit =
    (limit.elim (db.dueRows now) (db.dueRows now).take).mapM ConceptTable.read := by
  cases limit <;> rfl

/-- What the queries return of the rows that they select. -/
structure ReadsRows (db : DatabaseStore) : Prop where
  concept : ∀ id, Finds (fun r c => ConceptTable.Faithful r c ∨ ConceptTable.Guessed r c)
    (find? ConceptTable.schema db.concepts id) (ReviewStore.concept? db id)
  phrasing : ∀ id, Finds PhrasingTable.Faithful
    (find? PhrasingTable.schema db.phrasings id) (ReviewStore.phrasing? db id)
  due : ∀ now limit, Returns (fun r c => ConceptTable.Faithful r c ∨ ConceptTable.Guessed r c)
    (limit.elim (db.dueRows now) (db.dueRows now).take) (ReviewStore.due db now limit)
  phrasings : ∀ conceptId, Returns PhrasingTable.Faithful
    (db.phrasingRows conceptId) (ReviewStore.phrasingsOf db conceptId)
  recent : ∀ phrasingId limit,
    Returns (fun r i => InteractionTable.Faithful r i ∨ InteractionTable.Clamped r i)
      ((db.recentRows phrasingId).take limit) (ReviewStore.recent db phrasingId limit)

/-- Whatever the cells of a database hold, each query returns records that are faithful to the rows
    that it selects, but for a learning state that is guessed and an elapsed time that is taken for
    zero, and an error if there is a row that it cannot read so. -/
theorem readsRows (db : DatabaseStore)
    (h : ∀ r ∈ db.interactions, InteractionTable.InRange r) : db.ReadsRows where
  concept id := by
    rw [show ReviewStore.concept? db id = _ from concept?_eq_elim id]
    exact finds_elim fun _ _ => ConceptTable.read_iff
  phrasing id := by
    rw [show ReviewStore.phrasing? db id = _ from phrasing?_eq_elim id]
    exact finds_elim fun _ _ => PhrasingTable.read_iff
  due now limit := by
    rw [show ReviewStore.due db now limit = _ from due_eq_mapM now limit]
    exact returns_mapM fun _ _ _ => ConceptTable.read_iff
  phrasings _ := returns_mapM fun _ _ _ => PhrasingTable.read_iff
  recent _ _ := returns_mapM fun _ hr _ =>
    InteractionTable.read_iff (h _ (mem_of_mem_recentRows (List.mem_of_mem_take hr)))

/-! ## A database with two cells overwritten -/

/-- A concept without reviews. -/
def storedConcept : Concept :=
  .create "c" "title" (.fresh .epoch) .epoch

/-- A question about it. -/
def storedPhrasing : Phrasing :=
  .create "p" "c" "question" "answer" .epoch

/-- An answer to the question. -/
def storedInteraction : Interaction :=
  { id := "i", conceptId := "c", phrasingId := "p", userAnswer := "answer", isCorrect := true
    elapsedMs := 1000, sessionId := none, attemptedAt := .epoch }

/-- The row of the concept with a learning state that there is not. -/
def bogusRow : Row 13 := #v[
  .text "c", .text "title", .null, .ofInstant .epoch, .ofInstant .epoch, .text "bogus",
  .real 0.0, .real 0.0, .ofWord 0, .ofWord 0, .null, .ofInstant .epoch, .null]

/-- The row of the answer with an elapsed time below zero. -/
def negativeRow : Row 8 := #v[
  .text "i", .text "c", .text "p", .text "answer", .integer 1, .integer (-5), .null,
  .ofInstant .epoch]

/-- The database of the three after the two cells were overwritten. -/
def garbled : DatabaseStore where
  concepts := [bogusRow]
  phrasings := [PhrasingTable.row storedPhrasing]
  interactions := [negativeRow]

/-- The three are stored, then the two cells are overwritten. -/
def garbling : Except StoreError DatabaseStore := do
  let db ← empty.insertConcept storedConcept
  let db ← db.insertPhrasing storedPhrasing
  let db ← db.insertInteraction storedInteraction
  let (db, _) ← db.overwrite "concepts" "c" "learning_state" (.text "bogus")
  let (db, _) ← db.overwrite "interactions" "i" "elapsed_ms" (.integer (-5))
  return db

theorem readsRows_garbled :
    (∀ r ∈ garbled.interactions, InteractionTable.InRange r) ∧ garbled.ReadsRows := by
  have hrange : ∀ r ∈ garbled.interactions, InteractionTable.InRange r := by
    refine List.forall_mem_singleton.2 fun k hk => ?_
    obtain rfl : -5 = k := Cell.integer.inj hk
    decide
  exact ⟨hrange, readsRows garbled hrange⟩

/-- The queries return a new concept and an answer in no time, which the rows do not say. -/
theorem alters_garbled :
    garbling = .ok garbled ∧
      ReviewStore.concept? garbled "c" = .ok (some storedConcept) ∧
      (find? ConceptTable.schema garbled.concepts "c" = some bogusRow ∧
        ¬ ConceptTable.Faithful bogusRow storedConcept) ∧
      ReviewStore.recent garbled "p" 1 = .ok [{ storedInteraction with elapsedMs := 0 }] ∧
      (garbled.recentRows "p" = [negativeRow] ∧
        ¬ InteractionTable.Faithful negativeRow { storedInteraction with elapsedMs := 0 }) := by
  have hrows : garbled.recentRows "p" = [negativeRow] := by
    have hfilter : garbled.interactions.filter
        (fun r => r.get InteractionTable.phrasingId = .text "p") = [negativeRow] := by
      decide +kernel
    rw [recentRows, hfilter]
    exact List.mergeSort_singleton negativeRow
  refine ⟨by decide +kernel, by decide +kernel, ⟨by decide +kernel, fun h => ?_⟩, ?_, hrows,
    fun h => ?_⟩
  · exact absurd h.2 (by decide +kernel)
  · show ((garbled.recentRows "p").take 1).mapM InteractionTable.read = _
    rw [hrows]
    decide +kernel
  · exact absurd h.2 (by decide +kernel)

end DatabaseStore

end SpacedReview
