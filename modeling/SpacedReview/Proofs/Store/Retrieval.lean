import Mathlib.Data.List.Perm.Basic
import SpacedReview.Proofs.Sorting
import SpacedReview.Proofs.Store.Changes

/-!
# Records that a database gives back

Whatever a database holds, a record that it was able to write is found again, with its times cut to
the microsecond and its elapsed time within the bounds of a signed number. All that was listed
before is still listed with it.

## Main definitions

- `DatabaseStore.GivesBack` — what a database gives back of a new record

## Main statements

- `givesBack` — every database gives back what it was able to write
-/

namespace SpacedReview

/-! ## Reading lists of rows -/

/-- Rows that can be read can be read in any order. -/
theorem exists_mapM_of_perm {ε α β : Type} {f : α → Except ε β} {xs ys : List α} {bs : List β}
    (hperm : xs.Perm ys) (h : ys.mapM f = .ok bs) : ∃ as, xs.mapM f = .ok as ∧ as.Perm bs := by
  obtain ⟨as, hread, has⟩ := List.perm_comp_forall₂ hperm (mapM_eq_ok.1 h)
  exact ⟨as, mapM_eq_ok.2 hread, has⟩

/-- A list whose first members can be read, however many they are, can be read. -/
theorem mapM_eq_ok_of_take {ε α β : Type} {f : α → Except ε β} {xs : List α} {bs : List β}
    (h : ∀ n, (xs.take n).mapM f = .ok (bs.take n)) : xs.mapM f = .ok bs := by
  have hall := h (max xs.length bs.length)
  rwa [List.take_of_length_le (Nat.le_max_left _ _),
    List.take_of_length_le (Nat.le_max_right _ _)] at hall

theorem mapM_append_eq_ok {ε α β : Type} {f : α → Except ε β} {xs ys : List α} {bs : List β} :
    (xs ++ ys).mapM f = .ok bs ↔
      ∃ as cs, xs.mapM f = .ok as ∧ ys.mapM f = .ok cs ∧ as ++ cs = bs := by
  simp [List.mapM_append, bind_eq_ok, pure, Except.pure]

theorem mapM_take_eq_ok {ε α β : Type} {f : α → Except ε β} {xs : List α} {bs : List β}
    (h : xs.mapM f = .ok bs) (n : Nat) : (xs.take n).mapM f = .ok (bs.take n) :=
  mapM_eq_ok.2 (List.forall₂_take n (mapM_eq_ok.1 h))

/-- One more member that passes a filter comes to what was sorted before. -/
theorem mergeSort_filter_concat_perm {α : Type} {p : α → Bool} {x : α} (hx : p x) (xs : List α)
    {le : α → α → Bool} :
    (((xs ++ [x]).filter p).mergeSort le).Perm (x :: (xs.filter p).mergeSort le) := by
  have hfilter : (xs ++ [x]).filter p = xs.filter p ++ [x] := by
    rw [List.filter_append, List.filter_singleton, hx, cond_true]
  rw [hfilter]
  exact (List.mergeSort_perm _ le).trans
    (List.perm_append_singleton x _ |>.trans ((List.mergeSort_perm _ le).symm.cons x))

namespace DatabaseStore

variable {db db' : DatabaseStore}

/-- A row with a new identifier is the one that is found by it. -/
theorem find?_concat {n : Nat} {s : Schema n} {rows : List (Row n)} {r : Row n} {id : String}
    (hnew : ∀ q ∈ rows, q.get s.key ≠ .text id) (hid : r.get s.key = .text id) :
    find? s (rows ++ [r]) id = some r := by
  have hnone : rows.find? (fun q => s.hasId q id) = none := by
    rw [List.find?_eq_none]
    intro q hq
    simpa [Schema.hasId] using hnew q hq
  rw [find?, List.find?_append, hnone, Option.none_or]
  exact List.find?_cons_of_pos (decide_eq_true hid)

/-! ## New records -/

theorem concept?_insertConcept {c : Concept} (hc : c.Within Instant.HasPlainYear Binary64.IsPlain)
    (h : db.insertConcept c = .ok db') : ReviewStore.concept? db' c.id = .ok (some c.cut) := by
  obtain ⟨-, hnew, rfl⟩ := insertConcept_eq_ok.1 h
  refine concept?_eq_ok_some.2 ⟨_, find?_concat hnew rfl, ?_⟩
  rw [Concept.kept_eq_cut hc, ConceptTable.read_row (Concept.within_cut hc)]

theorem phrasing?_insertPhrasing {p : Phrasing} (hp : p.Within Instant.HasPlainYear)
    (h : db.insertPhrasing p = .ok db') : ReviewStore.phrasing? db' p.id = .ok (some p.kept) := by
  obtain ⟨hnew, -, rfl⟩ := insertPhrasing_eq_ok.1 h
  exact phrasing?_eq_ok_some.2 ⟨_, find?_concat hnew rfl, PhrasingTable.read_row_kept hp⟩

theorem phrasingsOf_insertPhrasing {p : Phrasing} (hp : p.Within Instant.HasPlainYear)
    (h : db.insertPhrasing p = .ok db') {ps : List Phrasing}
    (hps : ReviewStore.phrasingsOf db p.conceptId = .ok ps) :
    ∃ ps', ReviewStore.phrasingsOf db' p.conceptId = .ok ps' ∧ ps'.Perm (p.kept :: ps) := by
  obtain ⟨-, -, rfl⟩ := insertPhrasing_eq_ok.1 h
  have hconcept : (PhrasingTable.row p).get PhrasingTable.conceptId = .text p.conceptId := rfl
  refine exists_mapM_of_perm (mergeSort_filter_concat_perm (x := PhrasingTable.row p)
    (decide_eq_true hconcept) _) ?_
  exact mapM_eq_ok.2 (.cons (PhrasingTable.read_row_kept hp) (mapM_eq_ok.1 hps))

/-! ## New interactions -/

/-- The order of rows of interactions: the latest first. -/
def compareLatest (q r : Row 8) : Ordering :=
  compareBy InteractionTable.attemptedAt r q

instance : Std.TransCmp compareLatest :=
  inferInstanceAs (Std.TransCmp (flip (compareOn
    fun r : Row 8 => (r.get InteractionTable.attemptedAt).text?)))

/-- The row of a new interaction comes behind those that are later. -/
theorem exists_recentRows_concat {r : Row 8} {id : String}
    (hid : r.get InteractionTable.phrasingId = .text id)
    (h : db'.interactions = db.interactions ++ [r]) :
    ∃ front back, db.recentRows id = front ++ back ∧ db'.recentRows id = front ++ r :: back ∧
      ∀ q ∈ front, compareLatest q r = .lt := by
  have hcons : (db'.interactions.filter fun q =>
      q.get InteractionTable.phrasingId = .text id).reverse =
        r :: (db.interactions.filter fun q =>
          q.get InteractionTable.phrasingId = .text id).reverse := by
    rw [h, List.filter_append, List.filter_singleton, decide_eq_true hid, List.reverse_append]
    rfl
  rw [recentRows, recentRows, hcons]
  exact exists_mergeSort_cons compareLatest r _

/-- In a database that was filled, the instants of interactions are ordered as their texts are. -/
theorem Filled.lt_of_compareLatest (h : db.Filled) {i j : Interaction} {q : Row 8}
    (hq : q ∈ db.interactions) (hj : InteractionTable.read q = .ok j)
    (hi : i.attemptedAt.HasPlainYear) (hlt : compareLatest q (InteractionTable.row i) = .lt) :
    i.kept.attemptedAt < j.attemptedAt := by
  obtain ⟨s, hkept, -, rfl⟩ := h.exists_tables
  obtain ⟨k, hk, rfl⟩ := List.mem_map.1 hq
  rw [VolatileStore.read_row_of_kept (hkept.log k hk)] at hj
  obtain rfl := Except.ok.inj hj
  have htimes : compare (some i.attemptedAt.microStamp) (some k.attemptedAt.microStamp) = .lt := hlt
  rw [← Instant.microStamp_cut, VolatileStore.compare_stamps (Instant.isMicro_cut hi)
    (hkept.log k hk).1] at htimes
  exact Instant.compare_eq_lt.1 htimes

theorem mem_of_mem_recentRows {q : Row 8} {id : String} (h : q ∈ db.recentRows id) :
    q ∈ db.interactions :=
  List.mem_of_mem_filter (List.mem_reverse.1 (List.mem_mergeSort.1 h))

/-- The database reports the interactions with a phrasing in this order, up to any limit. -/
def Reports (db : DatabaseStore) (phrasingId : String) (is : List Interaction) : Prop :=
  ∀ n, ReviewStore.recent db phrasingId n = .ok (is.take n)

/-- A new interaction is reported behind those that are later. -/
theorem reports_record {p : ReviewPatch} (hp : p.interaction.attemptedAt.HasPlainYear)
    (h : db.record p = .ok db') {is : List Interaction}
    (his : db.Reports p.interaction.phrasingId is) :
    ∃ later others, is = later ++ others ∧
      db'.Reports p.interaction.phrasingId (later ++ p.interaction.kept :: others) ∧
      (db.Filled → ∀ i ∈ later, p.interaction.kept.attemptedAt < i.attemptedAt) := by
  obtain ⟨concepts, phrasings, -, -, -, -, hinsert⟩ := record_eq_ok.1 h
  obtain ⟨-, -, -, hdb'⟩ := insertInteraction_eq_ok.1 hinsert
  have hid : (InteractionTable.row p.interaction).get InteractionTable.phrasingId =
      .text p.interaction.phrasingId := rfl
  have hconcat : db'.interactions = db.interactions ++ [InteractionTable.row p.interaction] :=
    (congrArg interactions hdb').symm
  obtain ⟨front, back, hrows, hrows', hfront⟩ := exists_recentRows_concat hid hconcat
  have hread : (front ++ back).mapM InteractionTable.read = .ok is := by
    rw [← hrows]
    exact mapM_eq_ok_of_take his
  obtain ⟨later, others, hlater, hothers, rfl⟩ := mapM_append_eq_ok.1 hread
  have hread' : (front ++ InteractionTable.row p.interaction :: back).mapM InteractionTable.read =
      .ok (later ++ p.interaction.kept :: others) :=
    mapM_append_eq_ok.2 ⟨_, _, hlater, mapM_eq_ok.2
      (.cons (InteractionTable.read_row hp) (mapM_eq_ok.1 hothers)), rfl⟩
  refine ⟨later, others, rfl, fun n => ?_, fun hfilled i hi => ?_⟩
  · show ((db'.recentRows _).take n).mapM InteractionTable.read = _
    rw [hrows']
    exact mapM_take_eq_ok hread' n
  · obtain ⟨q, hq, hqi⟩ := exists_of_mem_mapM hlater hi
    have hmem : q ∈ db.interactions :=
      mem_of_mem_recentRows (hrows ▸ List.mem_append_left _ hq)
    exact hfilled.lt_of_compareLatest hmem hqi hp (hfront q hq)

/-! ## All records -/

/-- A database that was filled lists its phrasings and its interactions. -/
theorem Filled.exists_lists (h : db.Filled) (id : String) :
    (∃ ps, ReviewStore.phrasingsOf db id = .ok ps) ∧
      ∃ is, db.Reports id is := by
  obtain ⟨s, hkept, -, rfl⟩ := h.exists_tables
  refine ⟨⟨_, VolatileStore.phrasingsOf_tables hkept id⟩, ?_⟩
  refine ⟨((s.log.filter (·.phrasingId = id)).reverse).mergeSort
    fun i j => compare j.attemptedAt i.attemptedAt ≠ .gt, fun n => ?_⟩
  exact VolatileStore.recent_tables hkept id n

/-- What a database gives back of the records that it was able to write, at times in the years 0 to
    9999: a concept whose numbers are plain with its times cut, a phrasing with its times cut, both
    alone and among the phrasings of its concept, and an interaction with its time cut and its
    elapsed time within bounds, behind those that are later. A database that was filled at such
    times lists all its phrasings and interactions. -/
structure GivesBack (db : DatabaseStore) : Prop where
  concept : ∀ (c : Concept) (db' : DatabaseStore),
    c.Within Instant.HasPlainYear Binary64.IsPlain → Catalogued.insertConcept db c = .ok db' →
    ReviewStore.concept? db' c.id = .ok (some c.cut)
  phrasing : ∀ (p : Phrasing) (db' : DatabaseStore),
    p.Within Instant.HasPlainYear → Catalogued.insertPhrasing db p = .ok db' →
    ReviewStore.phrasing? db' p.id = .ok (some p.kept) ∧
    ∀ ps, ReviewStore.phrasingsOf db p.conceptId = .ok ps →
      ∃ ps', ReviewStore.phrasingsOf db' p.conceptId = .ok ps' ∧ ps'.Perm (p.kept :: ps)
  interaction : ∀ (p : ReviewPatch) (db' : DatabaseStore),
    p.interaction.attemptedAt.HasPlainYear → ReviewStore.record db p = .ok db' →
    ∀ is, db.Reports p.interaction.phrasingId is → ∃ later others, is = later ++ others ∧
        db'.Reports p.interaction.phrasingId (later ++ p.interaction.kept :: others) ∧
        (db.Filled → ∀ i ∈ later, p.interaction.kept.attemptedAt < i.attemptedAt)
  lists : db.Filled → ∀ id, (∃ ps, ReviewStore.phrasingsOf db id = .ok ps) ∧
    ∃ is, db.Reports id is

/-- Every database gives back the records that it was able to write. -/
theorem givesBack (db : DatabaseStore) : db.GivesBack where
  concept _ _ hc h := concept?_insertConcept hc h
  phrasing _ _ hp h :=
    ⟨phrasing?_insertPhrasing hp h, fun _ hps => phrasingsOf_insertPhrasing hp h hps⟩
  interaction _ _ hp h _ his := reports_record hp h his
  lists h id := h.exists_lists id

end DatabaseStore

/-! ## Awkward records -/

/-- A point of the leap second at the end of 2016. -/
def Instant.inLeapSecond : Instant :=
  (of? 1483228799 1999999999).get rfl

/-- A concept with texts that need escapes, an empty text, and the greatest counters. -/
def Concept.awkward : Concept where
  id := "\"\\"
  title := "\n\u0000"
  description := some ""
  memory := {
    state := .relearning, stability := 1.5, difficulty := -2.0, reps := 4294967295,
    lapses := 4294967295, lastReview := some .inLeapSecond, nextReview := .inLeapSecond }
  canonicalPhrasing := none
  createdAt := .inLeapSecond
  updatedAt := .epoch

/-- A phrasing with choices that need escapes. -/
def Phrasing.awkward : Phrasing where
  id := ""
  conceptId := Concept.awkward.id
  question := "\t\u001F"
  options := ["", "\"]", "\\u0041"]
  correctAnswer := "\"]"
  explanation := some ""
  attemptCount := 4294967295
  lastAttemptedAt := none
  createdAt := .inLeapSecond
  archivedAt := some .inLeapSecond
  deletedAt := none

/-- An answer that took longer than signed numbers of milliseconds last. -/
def ReviewPatch.awkward : ReviewPatch where
  conceptId := Concept.awkward.id
  memory := Concept.awkward.memory
  phrasingId := Phrasing.awkward.id
  attemptCount := 0
  lastAttemptedAt := .inLeapSecond
  interaction := {
    id := "", conceptId := Concept.awkward.id, phrasingId := Phrasing.awkward.id,
    userAnswer := "\u0000", isCorrect := true, elapsedMs := 18446744073709551615,
    sessionId := some "", attemptedAt := .inLeapSecond }

theorem DatabaseStore.givesBack_awkward :
    ∃ db db' db'' : DatabaseStore,
      Catalogued.insertConcept DatabaseStore.empty Concept.awkward = .ok db ∧
      Catalogued.insertPhrasing db Phrasing.awkward = .ok db' ∧
      ReviewStore.record db' ReviewPatch.awkward = .ok db'' ∧
      ReviewStore.concept? db Concept.awkward.id = .ok (some Concept.awkward.cut) ∧
      ReviewStore.phrasing? db' Phrasing.awkward.id = .ok (some Phrasing.awkward.kept) ∧
      db''.Reports Phrasing.awkward.id [ReviewPatch.awkward.interaction.kept] := by
  let s : VolatileStore := .empty
  let s' := s.insertConcept Concept.awkward.kept
  let s'' : VolatileStore := { s' with phrasings := [Phrasing.awkward.kept] }
  have hconcept : Catalogued.insertConcept DatabaseStore.empty Concept.awkward = .ok s'.tables :=
    VolatileStore.insertConcept_tables_eq_ok (s := s).2 ⟨⟨by decide, by decide⟩, by decide, rfl⟩
  have hphrasing : Catalogued.insertPhrasing s'.tables Phrasing.awkward = .ok s''.tables :=
    VolatileStore.insertPhrasing_tables_eq_ok.2 ⟨by decide, by decide, rfl⟩
  have hrecord : ReviewStore.record s''.tables ReviewPatch.awkward =
      .ok (s''.recorded ReviewPatch.awkward.kept).tables :=
    VolatileStore.record_tables_eq_ok.2
      ⟨by decide, by decide, ⟨by decide, by decide⟩, by decide, by decide, by decide, rfl⟩
  have hnone : s''.tables.Reports Phrasing.awkward.id [] := by
    have hrows : s''.tables.recentRows Phrasing.awkward.id = [] := List.mergeSort_nil
    intro n
    show ((s''.tables.recentRows _).take n).mapM InteractionTable.read = _
    rw [hrows, List.take_nil, List.take_nil]
    rfl
  have hc : Concept.awkward.Within Instant.HasPlainYear Binary64.IsPlain :=
    ⟨⟨by decide, by decide, by decide, by decide⟩, by decide, by decide⟩
  have hp : Phrasing.awkward.Within Instant.HasPlainYear :=
    ⟨by decide, by decide, by decide, by decide⟩
  obtain ⟨later, others, hnil, hreports, -⟩ :=
    (DatabaseStore.givesBack _).interaction _ _ (by decide) hrecord _ hnone
  obtain ⟨rfl, rfl⟩ := List.append_eq_nil_iff.1 hnil.symm
  exact ⟨_, _, _, hconcept, hphrasing, hrecord,
    (DatabaseStore.givesBack _).concept _ _ hc hconcept,
    ((DatabaseStore.givesBack _).phrasing _ _ hp hphrasing).1, hreports⟩

end SpacedReview
