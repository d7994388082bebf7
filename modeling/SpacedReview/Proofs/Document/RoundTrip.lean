import SpacedReview.Proofs.Document.Session

/-!
# Every record is decoded from its text

What is written of a record, as the compact text of its document, is decoded as the same record:
whatever characters its texts have, whichever of its optional fields are there, at every instant to
the nanosecond, and for every count that its fields can hold. The only assumption is on its floats.
They have to be finite and the text of each of them has to be read as the same float.

## Main statements

- `decodesBack` — decoding undoes encoding for all kinds of records
-/

namespace SpacedReview

open Json (ReadsBack)

/-- Decoding undoes encoding, for each kind of record whose floats are read back. -/
structure DecodesBack : Prop where
  memoryState : ∀ m : MemoryState, (∀ x ∈ m.floats, ReadsBack x) →
    (Json.read? m.toJson.write).bind MemoryState.ofJson? = some m
  parameters : ∀ p : Parameters, (∀ x ∈ p.floats, ReadsBack x) →
    (Json.read? p.toJson.write).bind Parameters.ofJson? = some p
  concept : ∀ c : Concept, (∀ x ∈ c.memory.floats, ReadsBack x) →
    (Json.read? c.toJson.write).bind Concept.ofJson? = some c
  phrasing : ∀ p : Phrasing, (Json.read? p.toJson.write).bind Phrasing.ofJson? = some p
  interaction : ∀ i : Interaction, (Json.read? i.toJson.write).bind Interaction.ofJson? = some i
  selectionOptions : ∀ o : SelectionOptions,
    (Json.read? o.toJson.write).bind SelectionOptions.ofJson? = some o
  scheduleResult : ∀ s : ScheduleResult, (∀ x ∈ s.memory.floats, ReadsBack x) →
    (Json.read? s.toJson.write).bind ScheduleResult.ofJson? = some s
  reviewCandidate : ∀ c : ReviewCandidate, (∀ x ∈ c.floats, ReadsBack x) →
    (Json.read? c.toJson.write).bind ReviewCandidate.ofJson? = some c
  submitRequest : ∀ q : SubmitRequest,
    (Json.read? q.toJson.write).bind SubmitRequest.ofJson? = some q
  submitOutcome : ∀ o : SubmitOutcome,
    (Json.read? o.toJson.write).bind SubmitOutcome.ofJson? = some o
  reviewPatch : ∀ p : ReviewPatch, (∀ x ∈ p.memory.floats, ReadsBack x) →
    (Json.read? p.toJson.write).bind ReviewPatch.ofJson? = some p
  reviewStats : ∀ s : ReviewStats, (Json.read? s.toJson.write).bind ReviewStats.ofJson? = some s
  /-- The skipped concepts may be listed in any order. -/
  sessionState : ∀ (s : SessionState) (ids : List String), (∀ x, x ∈ ids ↔ x ∈ s.skipped) →
    (∀ x ∈ s.floats, ReadsBack x) →
    (Json.read? (s.toJsonListing ids).write).bind SessionState.ofJson? = some s

/-- Every record whose floats are read back is decoded from its text. -/
theorem decodesBack : DecodesBack where
  memoryState _ h := (MemoryState.encodes_toJson h).read?_write
  parameters _ h := (Parameters.encodes_toJson h).read?_write
  concept _ h := (Concept.encodes_toJson h).read?_write
  phrasing p := p.encodes_toJson.read?_write
  interaction i := i.encodes_toJson.read?_write
  selectionOptions o := o.encodes_toJson.read?_write
  scheduleResult _ h := (ScheduleResult.encodes_toJson h).read?_write
  reviewCandidate _ h := (ReviewCandidate.encodes_toJson h).read?_write
  submitRequest q := q.encodes_toJson.read?_write
  submitOutcome o := o.encodes_toJson.read?_write
  reviewPatch _ h := (ReviewPatch.encodes_toJson h).read?_write
  reviewStats s := s.encodes_toJson.read?_write
  sessionState _ _ hids h := (SessionState.encodes_toJsonListing hids h).read?_write

/-- A question before the year 0, in a leap second, with quotes, controls and a character beyond the
    basic plane, and two skipped concepts in the other order. -/
theorem decodesBack_of_leapSecond :
    let t : Instant := ⟨-62199999961, 1999999999, by decide, by decide, by decide, by decide⟩
    let m : MemoryState :=
      { state := .relearning, stability := 2.5, difficulty := 7.25, reps := 7,
        lapses := 4294967295, lastReview := none, nextReview := t }
    let c : Concept :=
      { id := "c", title := "\"a\\b\"", description := some "\u0001\t𝄞", memory := m,
        canonicalPhrasing := none, createdAt := t, updatedAt := t }
    let found : FoundCandidate :=
      { concept := c, phrasing := .create "p" "c" "?" "!" t,
        phrasingStats := some ⟨1, 18446744073709551615⟩, selectionReason := .none,
        retrievability := -1.0, interactionHistory := [] }
    let s : SessionState :=
      { phase := .reviewing, question := some ⟨found, "k"⟩, lock := some "k",
        isTransitioning := false, skipped := .ofList ["d", "c"], lastAutoSkipped := some "",
        errorMessage := none }
    (Json.read? (ReviewCandidate.found found).toJson.write).bind ReviewCandidate.ofJson? =
        some (.found found) ∧
      (Json.read? (s.toJsonListing ["d", "c"]).write).bind SessionState.ofJson? = some s := by
  intro t m c found s
  have hfloats : ∀ x ∈ found.floats, ReadsBack x := by
    intro x hx
    simp only [FoundCandidate.floats, MemoryState.floats, List.mem_cons, List.not_mem_nil,
      or_false] at hx
    rcases hx with rfl | rfl | rfl
    all_goals exact ⟨by decide +kernel, by decide +kernel⟩
  have hskipped : ∀ x, x ∈ ["d", "c"] ↔ x ∈ s.skipped := fun x => IdSet.mem_ofList.symm
  exact ⟨decodesBack.reviewCandidate (.found found) hfloats,
    decodesBack.sessionState s ["d", "c"] hskipped hfloats⟩

end SpacedReview
