import SpacedReview.Proofs.Store.Rows

/-!
# Reading records

A record is read from a row exactly if each of its fields is read from the field's column. The
order in which the columns are read only decides which of several errors is reported.

## Main statements

- `ConceptTable.read_eq_ok`, `PhrasingTable.read_eq_ok`, `InteractionTable.read_eq_ok`
-/

namespace SpacedReview

theorem Schema.instant_eq_ok {n : Nat} {s : Schema n} {r : Row n} {c : Fin n} {t : Instant} :
    s.instant r c = .ok t ↔ ∃ x, s.text r c = .ok x ∧ s.instantOf c x = .ok t :=
  bind_eq_ok

theorem Schema.text_eq_ok {n : Nat} {s : Schema n} {r : Row n} {c : Fin n} {x : String} :
    s.text r c = .ok x ↔ r.get c = .text x := by
  unfold text
  cases r.get c <;> simp

theorem Schema.text?_eq_ok_some {n : Nat} {s : Schema n} {r : Row n} {c : Fin n} {x : String} :
    s.text? r c = .ok (some x) ↔ r.get c = .text x := by
  unfold text?
  cases h : r.get c <;> simp [text, h, Except.map]

/-- A column that holds anything is not read as holding no instant. -/
theorem Schema.instant?_eq_ok_none {n : Nat} {s : Schema n} {r : Row n} {c : Fin n} :
    s.instant? r c = .ok none ↔ r.get c = .null := by
  constructor
  · intro h
    obtain ⟨o, ho, h⟩ := bind_eq_ok.1 h
    cases o with
    | none =>
      unfold text? at ho
      cases hcell : r.get c with
      | null => rfl
      | text x => simp [text, hcell, Except.map] at ho
      | integer k => simp [text, hcell, Except.map] at ho
      | real x => simp [text, hcell, Except.map] at ho
    | some x =>
      obtain ⟨t, -, h⟩ := bind_eq_ok.1 h
      cases h
  · intro h
    simp [instant?, text?, h, bind, Except.bind, pure, Except.pure]

theorem Schema.word32_ofWord {n : Nat} {s : Schema n} {r : Row n} {c : Fin n} {k : UInt32}
    (h : r.get c = .ofWord k) : s.word32 r c = .ok k := by
  have hk : (k.toNat : Int) ≤ Numeral.word32Limit := by
    have := k.toNat_lt
    simp only [Numeral.word32Limit]
    omega
  simp [word32, integer, h, Cell.ofWord, hk, bind, Except.bind, pure, Except.pure]

/-! ## Reading one cell

A reader looks at the cell of its column and at nothing else of the row. -/

namespace Schema

variable {n : Nat} {s : Schema n} {q r : Row n} {c : Fin n}

theorem text_congr (h : q.get c = r.get c) : s.text q c = s.text r c := by
  simp only [text, wrongType, h]

theorem text?_congr (h : q.get c = r.get c) : s.text? q c = s.text? r c := by
  simp only [text?, text_congr h, h]

theorem word32_congr (h : q.get c = r.get c) : s.word32 q c = s.word32 r c := by
  simp only [word32, integer, wrongType, h]

theorem instant_congr (h : q.get c = r.get c) : s.instant q c = s.instant r c := by
  simp only [instant, text_congr h]

theorem instant?_congr (h : q.get c = r.get c) : s.instant? q c = s.instant? r c := by
  simp only [instant?, text?_congr h]

end Schema

/-! ## Reading a row -/

theorem ConceptTable.read_eq_ok {r : Row 13} {c : Concept} :
    read r = .ok c ↔
      schema.text r id = .ok c.id ∧
      schema.text r title = .ok c.title ∧
      schema.text? r description = .ok c.description ∧
      (∃ name, schema.text r learningState = .ok name ∧ .ofName name = c.memory.state) ∧
      schema.real r stability = .ok c.memory.stability ∧
      schema.real r difficulty = .ok c.memory.difficulty ∧
      schema.word32 r reps = .ok c.memory.reps ∧
      schema.word32 r lapses = .ok c.memory.lapses ∧
      schema.instant? r lastReview = .ok c.memory.lastReview ∧
      schema.instant r nextReview = .ok c.memory.nextReview ∧
      schema.text? r canonicalPhrasing = .ok c.canonicalPhrasing ∧
      schema.instant r createdAt = .ok c.createdAt ∧
      schema.instant r updatedAt = .ok c.updatedAt := by
  simp only [read, bind_eq_ok, Schema.instant_eq_ok, pure, Except.pure, Except.ok.injEq]
  constructor
  · rintro ⟨created, hcreated, updated, hupdated, next, hnext, state, hstate, _, hid, _, htitle,
      _, hdescription, _, hstability, _, hdifficulty, _, hreps, _, hlapses, _, hlast,
      _, hnext', _, hcanonical, _, hcreated', _, hupdated', rfl⟩
    exact ⟨hid, htitle, hdescription, ⟨state, hstate, rfl⟩, hstability, hdifficulty, hreps,
      hlapses, hlast, ⟨next, hnext, hnext'⟩, hcanonical, ⟨created, hcreated, hcreated'⟩,
      ⟨updated, hupdated, hupdated'⟩⟩
  · rintro ⟨hid, htitle, hdescription, ⟨state, hstate, hname⟩, hstability, hdifficulty, hreps,
      hlapses, hlast, ⟨next, hnext, hnext'⟩, hcanonical, ⟨created, hcreated, hcreated'⟩,
      ⟨updated, hupdated, hupdated'⟩⟩
    refine ⟨created, hcreated, updated, hupdated, next, hnext, state, hstate, _, hid, _, htitle,
      _, hdescription, _, hstability, _, hdifficulty, _, hreps, _, hlapses, _, hlast,
      _, hnext', _, hcanonical, _, hcreated', _, hupdated', ?_⟩
    rw [hname]

theorem PhrasingTable.read_eq_ok {r : Row 11} {p : Phrasing} :
    read r = .ok p ↔
      readOptions r = .ok p.options ∧
      schema.text r id = .ok p.id ∧
      schema.text r conceptId = .ok p.conceptId ∧
      schema.text r question = .ok p.question ∧
      schema.text r correctAnswer = .ok p.correctAnswer ∧
      schema.text? r explanation = .ok p.explanation ∧
      schema.word32 r attemptCount = .ok p.attemptCount ∧
      schema.instant? r lastAttemptedAt = .ok p.lastAttemptedAt ∧
      schema.instant r createdAt = .ok p.createdAt ∧
      schema.instant? r archivedAt = .ok p.archivedAt ∧
      schema.instant? r deletedAt = .ok p.deletedAt := by
  simp only [read, bind_eq_ok, Schema.instant_eq_ok, pure, Except.pure, Except.ok.injEq]
  constructor
  · rintro ⟨_, hoptions, created, hcreated, _, hid, _, hconcept, _, hquestion, _, hanswer,
      _, hexplanation, _, hcount, _, hlast, _, hcreated', _, harchived, _, hdeleted, rfl⟩
    exact ⟨hoptions, hid, hconcept, hquestion, hanswer, hexplanation, hcount, hlast,
      ⟨created, hcreated, hcreated'⟩, harchived, hdeleted⟩
  · rintro ⟨hoptions, hid, hconcept, hquestion, hanswer, hexplanation, hcount, hlast,
      ⟨created, hcreated, hcreated'⟩, harchived, hdeleted⟩
    exact ⟨_, hoptions, created, hcreated, _, hid, _, hconcept, _, hquestion, _, hanswer,
      _, hexplanation, _, hcount, _, hlast, _, hcreated', _, harchived, _, hdeleted, rfl⟩

theorem InteractionTable.read_eq_ok {r : Row 8} {i : Interaction} :
    read r = .ok i ↔
      schema.text r id = .ok i.id ∧
      schema.text r conceptId = .ok i.conceptId ∧
      schema.text r phrasingId = .ok i.phrasingId ∧
      schema.text r userAnswer = .ok i.userAnswer ∧
      schema.bool r isCorrect = .ok i.isCorrect ∧
      (∃ k, schema.integer r elapsedMs = .ok k ∧ UInt64.ofNat k.toNat = i.elapsedMs) ∧
      schema.text? r sessionId = .ok i.sessionId ∧
      schema.instant r attemptedAt = .ok i.attemptedAt := by
  simp only [read, bind_eq_ok, Schema.instant_eq_ok, pure, Except.pure, Except.ok.injEq]
  constructor
  · rintro ⟨at_, hat, elapsed, helapsed, _, hid, _, hconcept, _, hphrasing, _, hanswer,
      _, hcorrect, _, hsession, _, hat', rfl⟩
    exact ⟨hid, hconcept, hphrasing, hanswer, hcorrect, ⟨elapsed, helapsed, rfl⟩, hsession,
      ⟨at_, hat, hat'⟩⟩
  · rintro ⟨hid, hconcept, hphrasing, hanswer, hcorrect, ⟨elapsed, helapsed, hms⟩, hsession,
      ⟨at_, hat, hat'⟩⟩
    refine ⟨at_, hat, elapsed, helapsed, _, hid, _, hconcept, _, hphrasing, _, hanswer,
      _, hcorrect, _, hsession, _, hat', ?_⟩
    rw [hms]

end SpacedReview
