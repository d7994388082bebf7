import SpacedReview.Proofs.Review.Bookkeeping

/-!
# Databases that can be read

A database writes any time, and reads a time only if its year has four digits. So a database that
was filled by its own changes and by submissions can be read from one call to the next exactly as
long as no call that was taken has written a time outside the years 0 to 9999.

## Main definitions

- `DatabaseStore.Legible` — every question about a database is answered
- `ReviewCall.WritesPlainYears` — a call writes times in the years 0 to 9999 only

## Main statements

- `ReviewCall.legible_iff_writesPlainYears` — which calls leave a database that can be read
-/

namespace SpacedReview

/-! ## Timestamps outside the four-digit years -/

theorem Schema.hasPlainYear_of_instantOf {n : Nat} {s : Schema n} {c : Fin n} {t u : Instant}
    (h : s.instantOf c t.microStamp = .ok u) : t.HasPlainYear := by
  unfold instantOf at h
  split at h
  · rename_i hu
    exact Instant.hasPlainYear_of_readStrict? hu
  · cases h

theorem Schema.hasPlainYear_of_instant {n : Nat} {s : Schema n} {r : Row n} {c : Fin n}
    {t u : Instant} (hcell : r.get c = .ofInstant t) (h : s.instant r c = .ok u) :
    t.HasPlainYear := by
  obtain ⟨x, hx, hread⟩ := instant_eq_ok.1 h
  obtain rfl : t.microStamp = x := Cell.text.inj (hcell.symm.trans (text_eq_ok.1 hx))
  exact hasPlainYear_of_instantOf hread

theorem Schema.hasPlainYear_of_instant? {n : Nat} {s : Schema n} {r : Row n} {c : Fin n}
    {o u : Option Instant} (hcell : r.get c = .ofInstant? o) (h : s.instant? r c = .ok u) :
    ∀ t ∈ o, t.HasPlainYear := by
  rintro t rfl
  have hcell : r.get c = .text t.microStamp := hcell
  have htext : s.text? r c = .ok (some t.microStamp) := by
    rw [text?, hcell, text_eq_ok.2 hcell]
    rfl
  cases hread : s.instantOf c t.microStamp with
  | ok v => exact hasPlainYear_of_instantOf hread
  | error err => simp [instant?, htext, hread, bind, Except.bind] at h

/-! ## Rows that can be read -/

theorem ConceptTable.exists_read_row {c : Concept} :
    (∃ d, read (row c) = .ok d) ↔ c.Within Instant.HasPlainYear fun _ => True := by
  constructor
  · rintro ⟨d, hd⟩
    obtain ⟨-, -, -, -, -, -, -, -, hlast, hnext, -, hcreated, hupdated⟩ := read_eq_ok.1 hd
    exact ⟨⟨trivial, trivial, Schema.hasPlainYear_of_instant? rfl hlast,
      Schema.hasPlainYear_of_instant rfl hnext⟩, Schema.hasPlainYear_of_instant rfl hcreated,
      Schema.hasPlainYear_of_instant rfl hupdated⟩
  · exact fun h => ⟨c.cut, read_row_cut h⟩

theorem PhrasingTable.exists_read_row {p : Phrasing} :
    (∃ q, read (row p) = .ok q) ↔ p.Within Instant.HasPlainYear := by
  constructor
  · rintro ⟨q, hq⟩
    obtain ⟨-, -, -, -, -, -, -, hlast, hcreated, harchived, hdeleted⟩ := read_eq_ok.1 hq
    exact ⟨Schema.hasPlainYear_of_instant? rfl hlast, Schema.hasPlainYear_of_instant rfl hcreated,
      Schema.hasPlainYear_of_instant? rfl harchived, Schema.hasPlainYear_of_instant? rfl hdeleted⟩
  · exact fun h => ⟨p.kept, read_row_kept h⟩

theorem InteractionTable.exists_read_row {i : Interaction} :
    (∃ j, read (row i) = .ok j) ↔ i.attemptedAt.HasPlainYear := by
  constructor
  · rintro ⟨j, hj⟩
    obtain ⟨-, -, -, -, -, -, -, hattempted⟩ := read_eq_ok.1 hj
    exact Schema.hasPlainYear_of_instant rfl hattempted
  · exact fun h => ⟨i.kept, read_row h⟩

/-! ## Databases that can be read -/

namespace DatabaseStore

/-- Every question about the database is answered. -/
structure Legible (db : DatabaseStore) : Prop where
  concept : ∀ id, ∃ c, ReviewStore.concept? db id = .ok c
  phrasing : ∀ id, ∃ p, ReviewStore.phrasing? db id = .ok p
  due : ∀ now limit, ∃ cs, ReviewStore.due db now limit = .ok cs
  phrasingsOf : ∀ id, ∃ ps, ReviewStore.phrasingsOf db id = .ok ps
  recent : ∀ id limit, ∃ is, ReviewStore.recent db id limit = .ok is
  nextCandidate : ∀ (e : Engine) now putOff, ∃ c, SpacedReview.nextCandidate e db now putOff = .ok c

variable {db : DatabaseStore}

theorem exists_candidateFor? (e : Engine) (now : Instant)
    (hphrasings : ∀ id, ∃ ps, ReviewStore.phrasingsOf db id = .ok ps)
    (hrecent : ∀ id limit, ∃ is, ReviewStore.recent db id limit = .ok is) (c : Concept) :
    ∃ found, candidateFor? e db now c = .ok found := by
  obtain ⟨ps, hps⟩ := hphrasings c.id
  rw [candidateFor?, hps]
  cases hchosen : (selectPreferred c.canonicalPhrasing ps).phrasing? with
  | none =>
    simp only [hchosen, Except.mapError, bind, Except.bind]
    exact ⟨none, rfl⟩
  | some p =>
    obtain ⟨is, his⟩ := hrecent p.id historyLimit
    simp only [hchosen, his, Except.mapError, bind, Except.bind]
    exact ⟨_, rfl⟩

theorem exists_firstCandidate (e : Engine) (now : Instant)
    (hphrasings : ∀ id, ∃ ps, ReviewStore.phrasingsOf db id = .ok ps)
    (hrecent : ∀ id limit, ∃ is, ReviewStore.recent db id limit = .ok is) (cs : List Concept) :
    ∃ c, firstCandidate e db now cs = .ok c := by
  induction cs with
  | nil => exact ⟨.empty, rfl⟩
  | cons c cs ih =>
    obtain ⟨found, hfound⟩ := exists_candidateFor? e now hphrasings hrecent c
    rw [firstCandidate, hfound]
    cases found with
    | none => exact ih
    | some found => exact ⟨.found found, rfl⟩

/-- A database can be read if each of its rows can. -/
theorem legible_of_rows (hc : ∀ r ∈ db.concepts, ∃ c, ConceptTable.read r = .ok c)
    (hp : ∀ r ∈ db.phrasings, ∃ p, PhrasingTable.read r = .ok p)
    (hi : ∀ r ∈ db.interactions, ∃ i, InteractionTable.read r = .ok i) : db.Legible := by
  have hphrasings (id : String) : ∃ ps, ReviewStore.phrasingsOf db id = .ok ps :=
    exists_mapM_eq_ok.2 fun r hr => hp r (List.mem_of_mem_filter (List.mem_mergeSort.1 hr))
  have hrecent (id : String) (limit : Nat) : ∃ is, ReviewStore.recent db id limit = .ok is := by
    refine exists_mapM_eq_ok.2 fun r hr => hi r ?_
    exact List.mem_of_mem_filter
      (List.mem_reverse.1 (List.mem_mergeSort.1 (List.mem_of_mem_take hr)))
  have hdueRows (now : Instant) (r : Row 13) (hr : r ∈ db.dueRows now) :
      ∃ c, ConceptTable.read r = .ok c :=
    hc r (List.mem_of_mem_filter (List.mem_mergeSort.1 hr))
  have hdue (now : Instant) (limit : Option Nat) :
      ∃ cs, ReviewStore.due db now limit = .ok cs := by
    cases limit with
    | none => exact exists_mapM_eq_ok.2 (hdueRows now)
    | some n => exact exists_mapM_eq_ok.2 fun r hr => hdueRows now r (List.mem_of_mem_take hr)
  refine ⟨fun id => ?_, fun id => ?_, hdue, hphrasings, hrecent, fun e now putOff => ?_⟩
  · show ∃ c, concept? db id = .ok c
    unfold concept?
    cases hr : find? ConceptTable.schema db.concepts id with
    | none => exact ⟨none, rfl⟩
    | some r =>
      obtain ⟨c, hread⟩ := hc r (List.mem_of_find?_eq_some hr)
      exact ⟨some c, by simp only [hread]; rfl⟩
  · show ∃ p, phrasing? db id = .ok p
    unfold phrasing?
    cases hr : find? PhrasingTable.schema db.phrasings id with
    | none => exact ⟨none, rfl⟩
    | some r =>
      obtain ⟨p, hread⟩ := hp r (List.mem_of_find?_eq_some hr)
      exact ⟨some p, by simp only [hread]; rfl⟩
  · obtain ⟨cs, hcs⟩ := hdue now none
    rw [SpacedReview.nextCandidate, hcs]
    exact exists_firstCandidate e now hphrasings hrecent _

end DatabaseStore

/-! ## Times that are cut -/

theorem forall_mem_map_cut {o : Option Instant} :
    (∀ t ∈ o.map Instant.cut, t.HasPlainYear) ↔ ∀ t ∈ o, t.HasPlainYear := by
  cases o with
  | none => simp
  | some t => exact ⟨fun h u hu => Option.some.inj hu ▸ h t.cut rfl,
      fun h u hu => Option.some.inj hu ▸ h t rfl⟩

theorem MemoryState.kept_within_iff {m : MemoryState} :
    (m.kept.Within Instant.HasPlainYear fun _ => True) ↔
      m.Within Instant.HasPlainYear fun _ => True :=
  ⟨fun h => ⟨trivial, trivial, forall_mem_map_cut.1 h.lastReview, h.nextReview⟩,
    fun h => ⟨trivial, trivial, forall_mem_map_cut.2 h.lastReview, h.nextReview⟩⟩

theorem Concept.kept_within_iff {c : Concept} :
    (c.kept.Within Instant.HasPlainYear fun _ => True) ↔
      c.Within Instant.HasPlainYear fun _ => True :=
  ⟨fun h => ⟨MemoryState.kept_within_iff.1 h.memory, h.createdAt, h.updatedAt⟩,
    fun h => ⟨MemoryState.kept_within_iff.2 h.memory, h.createdAt, h.updatedAt⟩⟩

theorem Phrasing.kept_within_iff {p : Phrasing} :
    p.kept.Within Instant.HasPlainYear ↔ p.Within Instant.HasPlainYear :=
  ⟨fun h => ⟨forall_mem_map_cut.1 h.lastAttemptedAt, h.createdAt,
      forall_mem_map_cut.1 h.archivedAt, forall_mem_map_cut.1 h.deletedAt⟩,
    fun h => ⟨forall_mem_map_cut.2 h.lastAttemptedAt, h.createdAt,
      forall_mem_map_cut.2 h.archivedAt, forall_mem_map_cut.2 h.deletedAt⟩⟩

/-! ## The tables of a store -/

/-- All times of the store satisfy a predicate. -/
structure VolatileStore.TimesIn (time : Instant → Prop) (s : VolatileStore) : Prop where
  concepts : ∀ c ∈ s.concepts, c.Within time fun _ => True
  phrasings : ∀ p ∈ s.phrasings, p.Within time
  log : ∀ i ∈ s.log, time i.attemptedAt

namespace VolatileStore

variable {s : VolatileStore}

theorem within_of_concept? (hd : s.Distinct) {c : Concept} (hc : c ∈ s.concepts)
    {d : Option Concept} (h : ReviewStore.concept? s.tables c.id = .ok d) :
    c.Within Instant.HasPlainYear fun _ => True := by
  have hfind : DatabaseStore.find? ConceptTable.schema s.tables.concepts c.id =
      some (ConceptTable.row c) := by
    rw [tables, find?_map_row (fun _ => rfl), Keyed.find?_of_mem hd.concepts hc]
    rfl
  have hread : (ConceptTable.read (ConceptTable.row c)).map some = .ok d := by
    change DatabaseStore.concept? s.tables c.id = .ok d at h
    rw [DatabaseStore.concept?, hfind] at h
    exact h
  obtain ⟨x, hx, -⟩ := map_eq_ok.1 hread
  exact ConceptTable.exists_read_row.1 ⟨x, hx⟩

theorem within_of_phrasing? (hd : s.Distinct) {p : Phrasing} (hp : p ∈ s.phrasings)
    {q : Option Phrasing} (h : ReviewStore.phrasing? s.tables p.id = .ok q) :
    p.Within Instant.HasPlainYear := by
  have hfind : DatabaseStore.find? PhrasingTable.schema s.tables.phrasings p.id =
      some (PhrasingTable.row p) := by
    rw [tables, find?_map_row (fun _ => rfl), Keyed.find?_of_mem hd.phrasings hp]
    rfl
  have hread : (PhrasingTable.read (PhrasingTable.row p)).map some = .ok q := by
    change DatabaseStore.phrasing? s.tables p.id = .ok q at h
    rw [DatabaseStore.phrasing?, hfind] at h
    exact h
  obtain ⟨x, hx, -⟩ := map_eq_ok.1 hread
  exact PhrasingTable.exists_read_row.1 ⟨x, hx⟩

/-- A limit as great as the log brings up every interaction with a phrasing. -/
theorem hasPlainYear_of_recent {i : Interaction} (hi : i ∈ s.log) {is : List Interaction}
    (h : ReviewStore.recent s.tables i.phrasingId s.log.length = .ok is) :
    i.attemptedAt.HasPlainYear := by
  have hrow : InteractionTable.row i ∈ (s.tables.recentRows i.phrasingId).take s.log.length := by
    rw [List.take_of_length_le]
    · refine List.mem_mergeSort.2 (List.mem_reverse.2 (List.mem_filter.2 ⟨?_, ?_⟩))
      · exact List.mem_map_of_mem hi
      · exact decide_eq_true rfl
    · rw [DatabaseStore.recentRows, List.length_mergeSort, List.length_reverse]
      exact (List.length_filter_le _ _).trans (List.length_map _).le
  exact InteractionTable.exists_read_row.1 (exists_mapM_eq_ok.1 ⟨is, h⟩ _ hrow)

/-- The tables of a store can be read if all its years have four digits, and only then: each record
    is asked for by some question. -/
theorem legible_tables_iff (hd : s.Distinct) :
    s.tables.Legible ↔ s.TimesIn Instant.HasPlainYear := by
  constructor
  · intro h
    refine ⟨fun c hc => ?_, fun p hp => ?_, fun i hi => ?_⟩
    · obtain ⟨d, hread⟩ := h.concept c.id
      exact within_of_concept? hd hc hread
    · obtain ⟨q, hread⟩ := h.phrasing p.id
      exact within_of_phrasing? hd hp hread
    · obtain ⟨is, hread⟩ := h.recent i.phrasingId s.log.length
      exact hasPlainYear_of_recent hi hread
  · intro h
    refine DatabaseStore.legible_of_rows (fun r hr => ?_) (fun r hr => ?_) fun r hr => ?_
    · obtain ⟨c, hc, rfl⟩ := List.mem_map.1 hr
      exact ConceptTable.exists_read_row.2 (h.concepts c hc)
    · obtain ⟨p, hp, rfl⟩ := List.mem_map.1 hr
      exact PhrasingTable.exists_read_row.2 (h.phrasings p hp)
    · obtain ⟨i, hi, rfl⟩ := List.mem_map.1 hr
      exact InteractionTable.exists_read_row.2 (h.log i hi)

/-! ## Changes -/

theorem timesIn_insertConcept_iff (h : s.TimesIn Instant.HasPlainYear) (c : Concept) :
    (s.filledBy (.insertConcept c)).TimesIn Instant.HasPlainYear ↔
      c.Within Instant.HasPlainYear fun _ => True := by
  constructor
  · intro hfilled
    exact Concept.kept_within_iff.1 (hfilled.concepts _ (Keyed.mem_put Concept.id _ _))
  · intro hc
    exact ⟨Keyed.forall_mem_put _ h.concepts (Concept.kept_within_iff.2 hc), h.phrasings, h.log⟩

theorem timesIn_insertPhrasing_iff (h : s.TimesIn Instant.HasPlainYear) (p : Phrasing) :
    (s.filledBy (.insertPhrasing p)).TimesIn Instant.HasPlainYear ↔
      p.Within Instant.HasPlainYear := by
  constructor
  · intro hfilled
    exact Phrasing.kept_within_iff.1 (hfilled.phrasings _ (Keyed.mem_put Phrasing.id _ _))
  · intro hp
    exact ⟨h.concepts, Keyed.forall_mem_put _ h.phrasings (Phrasing.kept_within_iff.2 hp), h.log⟩

theorem timesIn_setCanonical_iff (h : s.TimesIn Instant.HasPlainYear) {c : Concept}
    (hc : c ∈ s.concepts) (o : Option String) (clock : Instant) :
    (s.filledBy (.setCanonical c.id o clock)).TimesIn Instant.HasPlainYear ↔
      clock.HasPlainYear := by
  constructor
  · intro hfilled
    exact (hfilled.concepts _ (Keyed.mem_change Concept.id hc rfl _)).updatedAt
  · intro hclock
    refine ⟨Keyed.forall_mem_change _ h.concepts fun d hd => ?_, h.phrasings, h.log⟩
    exact ⟨hd.memory, hd.createdAt, hclock⟩

theorem timesIn_archivePhrasing_iff (h : s.TimesIn Instant.HasPlainYear) {p : Phrasing}
    (hp : p ∈ s.phrasings) (now : Instant) :
    (s.filledBy (.archivePhrasing p.id now)).TimesIn Instant.HasPlainYear ↔
      now.HasPlainYear := by
  constructor
  · intro hfilled
    have hmem := Keyed.mem_change Phrasing.id hp rfl
      fun q : Phrasing => { q with archivedAt := some now.cut }
    exact (hfilled.phrasings _ hmem).archivedAt now.cut rfl
  · intro hnow
    refine ⟨h.concepts, Keyed.forall_mem_change _ h.phrasings fun q hq => ?_, h.log⟩
    exact ⟨hq.lastAttemptedAt, hq.createdAt, fun t ht => Option.some.inj ht ▸ hnow, hq.deletedAt⟩

theorem timesIn_record_iff (h : s.TimesIn Instant.HasPlainYear) {p : ReviewPatch}
    (hconcept : Keyed.has Concept.id s.concepts p.conceptId)
    (hphrasing : Keyed.has Phrasing.id s.phrasings p.phrasingId) :
    (s.filledBy (.record p)).TimesIn Instant.HasPlainYear ↔
      p.Within Instant.HasPlainYear fun _ => True := by
  obtain ⟨c, hc, hcid⟩ := (Keyed.has_iff _).1 hconcept
  obtain ⟨q, hq, hqid⟩ := (Keyed.has_iff _).1 hphrasing
  constructor
  · intro hfilled
    have hconcept := hfilled.concepts _ (Keyed.mem_change Concept.id hc hcid p.kept.onConcept)
    have hphrasing := hfilled.phrasings _ (Keyed.mem_change Phrasing.id hq hqid p.kept.onPhrasing)
    exact ⟨MemoryState.kept_within_iff.1 hconcept.memory,
      hphrasing.lastAttemptedAt p.lastAttemptedAt.cut rfl, hconcept.updatedAt⟩
  · intro hp
    refine ⟨Keyed.forall_mem_change _ h.concepts fun c hc => ?_,
      Keyed.forall_mem_change _ h.phrasings fun q hq => ?_, fun i hi => ?_⟩
    · exact ⟨MemoryState.kept_within_iff.2 hp.memory, hc.createdAt, hp.attemptedAt⟩
    · exact ⟨fun t ht => Option.some.inj ht ▸ hp.lastAttemptedAt, hq.createdAt, hq.archivedAt,
        hq.deletedAt⟩
    · rcases List.mem_append.1 hi with hi | hi
      · exact h.log i hi
      · rw [List.mem_singleton.1 hi]
        exact hp.attemptedAt

/-- A change leaves four-digit years behind if it has written no others. -/
theorem timesIn_filledBy_iff (h : s.TimesIn Instant.HasPlainYear) {ch : StoreChange}
    {db : DatabaseStore} (hch : ch.apply s.tables = .ok db) :
    (s.filledBy ch).TimesIn Instant.HasPlainYear ↔
      ch.Within Instant.HasPlainYear fun _ => True := by
  cases ch with
  | insertConcept c => exact timesIn_insertConcept_iff h c
  | insertPhrasing p => exact timesIn_insertPhrasing_iff h p
  | setCanonical id o clock =>
    have hset : s.tables.setCanonical id o clock = .ok db := hch
    rw [setCanonical_tables] at hset
    split at hset
    · rename_i hid
      obtain ⟨c, hc, rfl⟩ := (Keyed.has_iff _).1 hid
      exact timesIn_setCanonical_iff h hc o clock
    · cases hset
  | archivePhrasing id now =>
    have harchive : s.tables.archivePhrasing id now = .ok db := hch
    rw [archivePhrasing_tables, map_eq_ok] at harchive
    obtain ⟨s', hs', -⟩ := harchive
    obtain ⟨p, hp, -, -⟩ := archivePhrasing_eq_ok.1 hs'
    obtain rfl := Keyed.key_of_find? _ hp
    exact timesIn_archivePhrasing_iff h (Keyed.mem_of_find? _ hp) now
  | record p =>
    have hrecord : s.tables.record p = .ok db := hch
    obtain ⟨hc, hp, -⟩ := record_tables_eq_ok.1 hrecord
    exact timesIn_record_iff h hc hp

end VolatileStore

/-! ## Calls -/

namespace ReviewCall

/-- If the call is taken, then all times that it writes lie in the years 0 to 9999: those that it is
    given, and the next review that it computes. -/
def WritesPlainYears (db : DatabaseStore) : ReviewCall → Prop
  | change ch => ∀ next, ch.apply db = .ok next → ch.Within Instant.HasPlainYear fun _ => True
  | ask _ _ _ => True
  | submit call => ∀ outcome, (call.run db).2 = .ok outcome →
    call.now.HasPlainYear ∧ outcome.nextReview.HasPlainYear

/-- The tables after a call have four-digit years if it has written no others. -/
theorem exists_tables_after {s : VolatileStore} (hd : s.Distinct)
    (h : s.TimesIn Instant.HasPlainYear) (call : ReviewCall) :
    ∃ s' : VolatileStore, s'.Distinct ∧ s'.tables = call.after s.tables ∧
      (s'.TimesIn Instant.HasPlainYear ↔ call.WritesPlainYears s.tables) := by
  cases call with
  | ask e now putOff => exact ⟨s, hd, rfl, fun _ => trivial, fun _ => h⟩
  | change ch =>
    simp only [after, StoreChange.after, WritesPlainYears]
    cases happly : ch.apply s.tables with
    | error err =>
      refine ⟨s, hd, rfl, fun _ _ hnext => ?_, fun _ => h⟩
      cases hnext
    | ok db =>
      obtain ⟨hd', htables, -⟩ := VolatileStore.tables_eq_of_apply hd happly
      refine ⟨_, hd', htables, ?_⟩
      rw [VolatileStore.timesIn_filledBy_iff h happly]
      exact ⟨fun hch _ _ => hch, fun hch => hch db rfl⟩
  | submit call =>
    have hends := call.ends_run s.tables
    simp only [after, WritesPlainYears]
    generalize call.run s.tables = result at hends
    cases hends with
    | failed err =>
      refine ⟨s, hd, rfl, fun _ _ houtcome => ?_, fun _ => h⟩
      cases houtcome
    | @taken c p patch outcome db hc hp hplan hrecord =>
      have happly : (StoreChange.record patch).apply s.tables = .ok db := hrecord
      obtain ⟨hd', htables, -⟩ := VolatileStore.tables_eq_of_apply hd happly
      refine ⟨_, hd', htables, ?_⟩
      rw [VolatileStore.timesIn_filledBy_iff h happly]
      refine (ReviewPatch.within_iff_of_planReview (Tally.of_concept? hc).1
        (Tally.of_phrasing? hp).1 hplan).trans ⟨fun hyears o ho => ?_, fun hyears => ?_⟩
      · rw [← Except.ok.inj ho]
        exact hyears
      · exact hyears outcome rfl

theorem legible_iff_of_tables {s : VolatileStore} (hd : s.Distinct)
    (h : s.TimesIn Instant.HasPlainYear) (calls : List ReviewCall) :
    Throughout (fun db call => (call.after db).Legible) s.tables calls ↔
      Throughout (fun db call => call.WritesPlainYears db) s.tables calls := by
  induction calls generalizing s with
  | nil => exact Iff.rfl
  | cons call calls ih =>
    obtain ⟨s', hd', htables, hyears⟩ := exists_tables_after hd h call
    have hlegible : (call.after s.tables).Legible ↔ call.WritesPlainYears s.tables := by
      rw [← htables, VolatileStore.legible_tables_iff hd', hyears]
    rw [Throughout, Throughout, hlegible, ← htables]
    refine and_congr_right fun hcall => ?_
    exact ih hd' (hyears.2 hcall)

/-- A database that starts empty can be read after each of some calls, whichever of them fail,
    exactly if no call that was taken has written a time outside the years 0 to 9999. -/
theorem legible_iff_writesPlainYears (calls : List ReviewCall) :
    Throughout (fun db call => (call.after db).Legible) DatabaseStore.empty calls ↔
      Throughout (fun db call => call.WritesPlainYears db) DatabaseStore.empty calls :=
  legible_iff_of_tables VolatileStore.distinct_empty ⟨by simp [VolatileStore.empty],
    by simp [VolatileStore.empty], by simp [VolatileStore.empty]⟩ calls

/-- A concept whose next review lies in the year 10000 is taken. From then on neither it nor, long
    before it is due, any due concept can be asked for. -/
theorem not_legible_of_year10000 :
    let now : Instant := ⟨0, 0, by decide, by decide, by decide, by decide⟩
    let later : Instant := ⟨253402300800, 0, by decide, by decide, by decide, by decide⟩
    let c : Concept := .create "c" "title" (.fresh later) now
    let unreadable : StoreError := Schema.unreadable "next_review timestamp"
      "+10000-01-01T00:00:00.000000Z"
    ∃ db, (StoreChange.insertConcept c).apply DatabaseStore.empty = .ok db ∧
      ReviewStore.concept? db "c" = .error unreadable ∧
      ReviewStore.due db now none = .error unreadable ∧ ¬ db.Legible := by
  intro now later c unreadable
  have hc : ReviewStore.concept? (⟨[ConceptTable.row c], [], []⟩ : DatabaseStore) "c" =
      .error unreadable := by
    decide +kernel
  refine ⟨⟨[ConceptTable.row c], [], []⟩, by decide +kernel, hc, by decide +kernel, fun h => ?_⟩
  obtain ⟨d, hd⟩ := h.concept "c"
  rw [hc] at hd
  cases hd

end ReviewCall

end SpacedReview
