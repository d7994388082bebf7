import Mathlib.Algebra.Group.Int.Defs
import SpacedReview.Proofs.Review.Ranking
import SpacedReview.Proofs.Store.Agreement
import SpacedReview.Proofs.Text.Bytes

/-!
# Due dates kept as texts

A database keeps times as texts and compares them as bytes. As long as all years have four digits,
that is comparing instants cut to the microsecond, and the due concepts are asked for as if the
table kept instants. The number in a query's limit is signed, and a negative one sets no limit.

## Main definitions

- `DatabaseStore.Written`, `DatabaseStore.HasPlainYears` — tables of concepts
- `DatabaseStore.queryDue` — the query for the due concepts with the argument of its limit
- `DatabaseStore.AsksByInstant` — the due concepts by their instants

## Main statements

- `asksByInstant_of_plainYears` — timestamps as bytes, and the due concepts of a database
-/

namespace SpacedReview

/-! ## Timestamps as bytes -/

namespace Instant

variable {a b : Instant}

theorem bytes_microStamp_le_iff (ha : a.HasPlainYear) (hb : b.HasPlainYear) :
    a.microStamp.toUTF8.toList ≤ b.microStamp.toUTF8.toList ↔ a.cut ≤ b.cut := by
  rw [toUTF8_le_iff, microStamp_le_iff ha hb]

/-- Instants with one timestamp agree in having a year with four digits. -/
theorem HasPlainYear.of_microStamp_eq (ha : a.HasPlainYear) (h : b.microStamp = a.microStamp) :
    b.HasPlainYear :=
  hasPlainYear_of_readStrict? (h ▸ readStrict?_microStamp ha)

end Instant

/-! ## The limit of a query -/

/-- The argument of the limit of a query: minus one if there is none, and otherwise the number as a
    signed one. -/
def limitArgument : Option UInt64 → Int64
  | none => -1
  | some n => n.toInt64

/-- The rows that a query with the limit returns. A negative limit is none. -/
def limitRows {α : Type} (argument : Int64) (rows : List α) : List α :=
  if argument < 0 then rows else rows.take argument.toInt.toNat

theorem toInt_toInt64 (n : UInt64) :
    n.toInt64.toInt = if n.toNat < 2 ^ 63 then (n.toNat : Int) else n.toNat - 2 ^ 64 := by
  have hsize := n.toNat_lt
  have hint : n.toInt64.toInt = (n.toNat : Int).bmod (2 ^ 64) :=
    BitVec.toInt_eq_toNat_bmod n.toInt64.toBitVec
  rw [hint, Int.bmod_def]
  split_ifs <;> omega

/-- A number that the argument cannot hold is greater than the number of rows. -/
theorem limitRows_limitArgument {α : Type} {rows : List α} (h : rows.length < 2 ^ 63)
    (limit : Option UInt64) :
    limitRows (limitArgument limit) rows = VolatileStore.cutTo (limit.map UInt64.toNat) rows := by
  cases limit with
  | none => rfl
  | some n =>
    have hsize := n.toNat_lt
    have hneg : n.toInt64 < 0 ↔ ¬ n.toNat < 2 ^ 63 := by
      have hzero : (0 : Int64).toInt = 0 := rfl
      rw [Int64.lt_iff_toInt_lt, toInt_toInt64, hzero]
      split_ifs <;> omega
    show (if n.toInt64 < 0 then rows else rows.take n.toInt64.toInt.toNat) = rows.take n.toNat
    by_cases hn : n.toNat < 2 ^ 63
    · rw [if_neg (hneg.not.2 (not_not.2 hn)), toInt_toInt64, if_pos hn, Int.toNat_natCast]
    · rw [if_pos (hneg.2 hn), List.take_of_length_le (by omega)]

/-! ## Tables of concepts -/

/-- The concept comes before the other one: new ones first, then the earlier next review, and at one
    instant the smaller identifier. -/
def Concept.DueBefore (c d : Concept) : Prop :=
  c.isNew ∧ ¬ d.isNew ∨ c.isNew = d.isNew ∧
    (c.memory.nextReview < d.memory.nextReview ∨
      c.memory.nextReview = d.memory.nextReview ∧ c.id < d.id)

theorem VolatileStore.dueBefore_of_compareDue {c d : Concept} (h : compareDue c d = .lt) :
    c.DueBefore d := by
  simp only [compareDue, Ordering.then_eq_lt, Ordering.then_eq_eq, Instant.compare_eq_lt,
    Std.LawfulEqOrd.compare_eq_iff_eq, Std.LawfulLTCmp.eq_lt_iff_lt] at h
  rcases h with (hnew | ⟨hnew, hnext⟩) | ⟨⟨hnew, hnext⟩, hid⟩
  · left
    revert hnew
    cases c.isNew <;> cases d.isNew <;> decide
  · exact .inr ⟨hnew.symm, .inl hnext⟩
  · exact .inr ⟨hnew.symm, .inr ⟨hnext, hid⟩⟩

/-- The columns of a concept that hold times. -/
def ConceptTable.timeColumns : List (Fin 13) :=
  [createdAt, updatedAt, lastReview, nextReview]

namespace DatabaseStore

/-- The table of concepts has the rows of concepts, no two of which have one identifier. -/
def Written (db : DatabaseStore) : Prop :=
  ∃ cs : List Concept, db.concepts = cs.map ConceptTable.row ∧ (cs.map Concept.id).Nodup

/-- All times in the table of concepts lie in the years 0 to 9999. -/
def HasPlainYears (db : DatabaseStore) : Prop :=
  ∀ r ∈ db.concepts, ∀ column ∈ ConceptTable.timeColumns, ∀ t : Instant,
    r.get column = .ofInstant t → t.HasPlainYear

theorem hasPlainYears_of_concepts {db : DatabaseStore} {cs : List Concept} {number : Float → Prop}
    (hrows : db.concepts = cs.map ConceptTable.row)
    (h : ∀ c ∈ cs, c.Within Instant.HasPlainYear number) : db.HasPlainYears := by
  intro r hr column hcolumn t ht
  rw [hrows] at hr
  obtain ⟨c, hc, rfl⟩ := List.mem_map.1 hr
  -- The timestamp of a column is that of an instant whose year has four digits.
  have hstamp {u : Instant} (hu : u.HasPlainYear)
      (heq : (ConceptTable.row c).get column = .ofInstant u) : t.HasPlainYear :=
    hu.of_microStamp_eq (Cell.text.inj (ht.symm.trans heq))
  simp only [ConceptTable.timeColumns, List.mem_cons, List.not_mem_nil, or_false] at hcolumn
  rcases hcolumn with rfl | rfl | rfl | rfl
  · exact hstamp (h c hc).createdAt rfl
  · exact hstamp (h c hc).updatedAt rfl
  · have hcell : (ConceptTable.row c).get ConceptTable.lastReview =
        .ofInstant? c.memory.lastReview := rfl
    cases hlast : c.memory.lastReview with
    | none =>
      rw [hcell, hlast] at ht
      cases ht
    | some u => exact hstamp ((h c hc).memory.lastReview u hlast) (by rw [hcell, hlast]; rfl)
  · exact hstamp (h c hc).memory.nextReview rfl

/-- Whatever changes have filled a database, its table of concepts has the rows of concepts. -/
theorem written_run (chs : List StoreChange) : (StoreChange.run empty chs).Written := by
  have hinv : ∃ s : VolatileStore, s.Distinct ∧ s.tables = StoreChange.run empty chs := by
    refine StoreChange.invariant_run (P := fun db => ∃ s : VolatileStore, s.Distinct ∧
      s.tables = db) ?_ ⟨.empty, VolatileStore.distinct_empty, rfl⟩
    rintro ch - _ db ⟨s, hs, rfl⟩ hch
    obtain ⟨hdistinct, htables, -⟩ := VolatileStore.tables_eq_of_apply hs hch
    exact ⟨_, hdistinct, htables⟩
  obtain ⟨s, hs, htables⟩ := hinv
  exact ⟨s.concepts, by rw [← htables]; rfl, hs.concepts⟩

/-- The query for the due concepts, with the argument of its limit. -/
def queryDue (db : DatabaseStore) (now : Instant) (argument : Int64) :
    Except StoreError (List Concept) :=
  (limitRows argument (db.dueRows now)).mapM ConceptTable.read

/-- The list has the concepts of the database whose next review, to the microsecond, does not come
    after the instant, each once and in order. -/
structure IsDueList (db : DatabaseStore) (now : Instant) (due : List Concept) : Prop where
  mem : ∀ c, c ∈ due ↔
    ReviewStore.concept? db c.id = .ok (some c) ∧ c.memory.nextReview.cut ≤ now.cut
  nodup : (due.map Concept.id).Nodup
  order : due.Pairwise Concept.DueBefore

/-- Asked at any time in the years 0 to 9999, the database returns its due concepts up to the limit,
    also for a limit that the argument of the query cannot hold. What is due once stays due. -/
structure AsksByInstant (db : DatabaseStore) : Prop where
  due : ∀ now : Instant, now.HasPlainYear → ∃ due, db.IsDueList now due ∧
    ∀ limit : Option UInt64,
      ReviewStore.due db now (limit.map UInt64.toNat) =
        .ok (VolatileStore.cutTo (limit.map UInt64.toNat) due) ∧
      (db.concepts.length < 2 ^ 63 → db.queryDue now (limitArgument limit) =
        .ok (VolatileStore.cutTo (limit.map UInt64.toNat) due))
  mono : ∀ now later : Instant, now.HasPlainYear → later.HasPlainYear → now ≤ later →
    ∃ due due', ReviewStore.due db now none = .ok due ∧ ReviewStore.due db later none = .ok due' ∧
      due ⊆ due'

variable {db : DatabaseStore} {now : Instant}

theorem concept?_congr {other : DatabaseStore} (h : db.concepts = other.concepts) (id : String) :
    ReviewStore.concept? db id = ReviewStore.concept? other id := by
  show db.concept? id = other.concept? id
  rw [concept?, h, concept?]

theorem due_congr {other : DatabaseStore} (h : db.concepts = other.concepts) (now : Instant)
    (limit : Option Nat) : db.due now limit = other.due now limit := by
  simp only [due, dueRows, h]

/-- A written table with plain years has the rows of concepts whose times are whole
    microseconds. -/
theorem Written.exists_concepts (h : db.Written) (hyears : db.HasPlainYears) :
    ∃ s : VolatileStore, db.concepts = s.tables.concepts ∧ (s.concepts.map Concept.id).Nodup ∧
      ∀ c ∈ s.concepts, c.Within Instant.IsMicro fun _ => True := by
  obtain ⟨cs, hrows, hids⟩ := h
  have hplain (c : Concept) (hc : c ∈ cs) : c.Within Instant.HasPlainYear fun _ => True := by
    have hcell (column : Fin 13) {t : Instant} (hcolumn : column ∈ ConceptTable.timeColumns)
        (ht : (ConceptTable.row c).get column = .ofInstant t) : t.HasPlainYear :=
      hyears _ (hrows ▸ List.mem_map_of_mem hc) column hcolumn t ht
    refine ⟨⟨trivial, trivial, fun t ht => ?_, ?_⟩, ?_, ?_⟩
    · have hlast : (ConceptTable.row c).get ConceptTable.lastReview = .ofInstant? (some t) :=
        congrArg Cell.ofInstant? ht
      exact hcell ConceptTable.lastReview (by decide) hlast
    · exact hcell ConceptTable.nextReview (by decide) rfl
    · exact hcell ConceptTable.createdAt (by decide) rfl
    · exact hcell ConceptTable.updatedAt (by decide) rfl
  refine ⟨⟨cs.map Concept.cut, [], []⟩, ?_, ?_, ?_⟩
  · show db.concepts = (cs.map Concept.cut).map ConceptTable.row
    rw [hrows, List.map_map]
    exact List.map_congr_left fun c _ => (ConceptTable.row_cut c).symm
  · show ((cs.map Concept.cut).map Concept.id).Nodup
    rw [List.map_map]
    exact hids
  · rintro _ hd
    obtain ⟨c, hc, rfl⟩ := List.mem_map.1 hd
    exact Concept.within_cut (hplain c hc)

theorem queryDue_limitArgument (h : db.concepts.length < 2 ^ 63) (now : Instant)
    (limit : Option UInt64) :
    db.queryDue now (limitArgument limit) = ReviewStore.due db now (limit.map UInt64.toNat) := by
  have hrows : (db.dueRows now).length < 2 ^ 63 := by
    rw [dueRows, List.length_mergeSort]
    exact (List.length_filter_le _ _).trans_lt h
  rw [queryDue, limitRows_limitArgument hrows]
  rfl

/-- The due concepts of the records behind a table are those of the table. -/
theorem isDueList_due {s : VolatileStore} (hrows : db.concepts = s.tables.concepts)
    (hids : (s.concepts.map Concept.id).Nodup)
    (hkept : ∀ c ∈ s.concepts, c.Within Instant.IsMicro fun _ => True) (now : Instant) :
    db.IsDueList now (s.due now none) where
  mem c := by
    have hfound : ReviewStore.concept? db c.id = .ok (some c) ↔ c ∈ s.concepts := by
      rw [concept?_congr hrows, VolatileStore.concept?_of_concepts hkept, Except.ok.injEq]
      exact ⟨Keyed.mem_of_find? Concept.id, Keyed.find?_of_mem hids⟩
    rw [VolatileStore.mem_due, hfound]
    refine and_congr_right fun hc => ?_
    show decide (c.memory.nextReview ≤ now) = true ↔ _
    rw [decide_eq_true_iff, Instant.cut_le_cut_iff,
      Instant.cut_of_isMicro (hkept c hc).memory.nextReview]
  nodup := VolatileStore.nodup_due_of_concepts hids
  order := by
    have hne : s.concepts.Pairwise fun c d => VolatileStore.compareDue c d ≠ .eq :=
      (List.pairwise_map.1 hids).imp fun hne heq => hne (VolatileStore.id_eq_of_compareDue heq)
    exact (pairwise_lt_mergeSort VolatileStore.compareDue (hne.filter _)).imp
      VolatileStore.dueBefore_of_compareDue

theorem Written.asksByInstant (h : db.Written) (hyears : db.HasPlainYears) : db.AsksByInstant := by
  obtain ⟨s, hrows, hids, hkept⟩ := h.exists_concepts hyears
  have hdue {now : Instant} (hnow : now.HasPlainYear) (limit : Option Nat) :
      ReviewStore.due db now limit = .ok (s.due now limit) :=
    (due_congr hrows now limit).trans (VolatileStore.due_eq_ok_of_concepts hkept hnow limit)
  constructor
  · intro now hnow
    refine ⟨s.due now none, isDueList_due hrows hids hkept now, fun limit => ⟨hdue hnow _, ?_⟩⟩
    intro hlength
    rw [queryDue_limitArgument hlength, hdue hnow]
    rfl
  · intro now later hnow hlater hle
    refine ⟨_, _, hdue hnow none, hdue hlater none, fun c hc => ?_⟩
    obtain ⟨hfound, hnext⟩ := ((isDueList_due hrows hids hkept now).mem c).1 hc
    exact ((isDueList_due hrows hids hkept later).mem c).2
      ⟨hfound, Instant.le_trans hnext (Instant.cut_mono hle)⟩

end DatabaseStore

/-- In the years 0 to 9999 timestamps compare as bytes as their instants compare when cut to the
    microsecond, also in leap seconds, and are read as the instants that are cut. So whatever the
    table of concepts holds from these years, a database returns the due concepts by their
    instants. The tables of all databases that were filled by changes are of this kind. -/
theorem asksByInstant_of_plainYears :
    (∀ a b : Instant, a.HasPlainYear → b.HasPlainYear →
      (a.microStamp.toUTF8.toList ≤ b.microStamp.toUTF8.toList ↔ a.cut ≤ b.cut)) ∧
    (∀ a : Instant, a.HasPlainYear → Instant.readStrict? a.microStamp = some a.cut) ∧
    (∀ db : DatabaseStore, db.Written → db.HasPlainYears → db.AsksByInstant) ∧
    ∀ chs : List StoreChange, (StoreChange.run DatabaseStore.empty chs).Written :=
  ⟨fun _ _ ha hb => Instant.bytes_microStamp_le_iff ha hb,
    fun _ ha => Instant.readStrict?_microStamp ha,
    fun _ hwritten hyears => hwritten.asksByInstant hyears, DatabaseStore.written_run⟩

/-- A concept in review whose next review is at the instant. -/
def Concept.reviewedAt (id : String) (next : Instant) : Concept :=
  .create id "title" { MemoryState.fresh .epoch with state := .review, nextReview := next } .epoch

theorem Concept.within_reviewedAt (id : String) {next : Instant} (h : next.HasPlainYear) :
    (reviewedAt id next).Within Instant.HasPlainYear fun _ => True := by
  have hepoch : Instant.epoch.HasPlainYear := by decide
  exact ⟨⟨trivial, trivial, by simp [reviewedAt, create, MemoryState.fresh], h⟩, hepoch, hepoch⟩

/-- In the leap second at the end of 2016 a concept is due whose next review is later in the same
    microsecond, and one whose next review is in the second after it is not, under a limit that is
    greater than all signed numbers. -/
theorem asksByInstant_of_leapSecond :
    let now := (Instant.of? 1483228799 1000001500).get rfl
    let next := (Instant.of? 1483228799 1000001900).get rfl
    let midnight := (Instant.of? 1483228800 0).get rfl
    let db := VolatileStore.tables ⟨[.reviewedAt "late" midnight, .reviewedAt "leap" next], [], []⟩
    now.isLeap ∧ now < next ∧
    next.microStamp.toUTF8.toList ≤ now.microStamp.toUTF8.toList ∧
    Instant.readStrict? next.microStamp = some next.cut ∧
    ∃ due, db.queryDue now (limitArgument (some 9223372036854775808)) = .ok due ∧
      "leap" ∈ due.map Concept.id ∧ "late" ∉ due.map Concept.id := by
  intro now next midnight db
  obtain ⟨hbytes, hread, hasks, -⟩ := asksByInstant_of_plainYears
  have hwritten : db.Written := ⟨_, rfl, by decide⟩
  have hyears : db.HasPlainYears := by
    have hconcepts : ∀ c ∈ [Concept.reviewedAt "late" midnight, .reviewedAt "leap" next],
        c.Within Instant.HasPlainYear fun _ => True :=
      List.forall_mem_cons.2 ⟨Concept.within_reviewedAt _ (by decide),
        List.forall_mem_singleton.2 (Concept.within_reviewedAt _ (by decide))⟩
    exact DatabaseStore.hasPlainYears_of_concepts rfl hconcepts
  let leap : Concept := .reviewedAt "leap" next.cut
  have hleap : ReviewStore.concept? db leap.id = .ok (some leap) := by decide +kernel
  have hlate : ReviewStore.concept? db "late" = .ok (some (.reviewedAt "late" midnight)) := by
    decide +kernel
  have hquery : db.queryDue now (limitArgument (some 9223372036854775808)) =
      db.queryDue now (limitArgument none) := by
    have hargument : limitArgument (some 9223372036854775808) < 0 := by decide
    have hnone : limitArgument none < 0 := by decide
    rw [DatabaseStore.queryDue, DatabaseStore.queryDue, limitRows, limitRows, if_pos hargument,
      if_pos hnone]
  have hlength : db.concepts.length < 2 ^ 63 := by
    show 2 < 2 ^ 63
    omega
  obtain ⟨due, hdue, hlimit⟩ := (hasks db hwritten hyears).due now (by decide)
  refine ⟨by decide, by decide, (hbytes next now (by decide) (by decide)).2 (by decide),
    hread next (by decide), due, hquery.trans ((hlimit none).2 hlength), ?_, ?_⟩
  · exact List.mem_map.2 ⟨leap, (hdue.mem leap).2 ⟨hleap, by decide⟩, rfl⟩
  · intro hmem
    obtain ⟨c, hc, hid⟩ := List.mem_map.1 hmem
    obtain ⟨hfound, hnext⟩ := (hdue.mem c).1 hc
    rw [hid, hlate] at hfound
    obtain rfl := Option.some.inj (Except.ok.inj hfound)
    exact absurd hnext (by decide)

end SpacedReview
