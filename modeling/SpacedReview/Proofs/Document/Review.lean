import SpacedReview.Document.Review
import SpacedReview.Proofs.Document.Catalog

/-!
# Documents of the review queue are decoded

Candidates, requests, outcomes, patches and overviews are decoded from the documents that they are
written as. A candidate's document is sound and shallow enough to be read as a whole, and taking its
kind out leaves the fields of the found candidate, none of which has that name.
-/

namespace SpacedReview

open Json

namespace PhrasingStats

theorem encodes_toJson (d : Nat) (s : PhrasingStats) : Encodes ofJson? (d + 1) s s.toJson := by
  obtain ⟨r, hrecord, hfind⟩ := exists_record? s.toJson fieldNames rfl rfl (by decide)
  refine ⟨clean_ofFields_iff.2 (by simp), ?_⟩
  rw [ofJson?, hrecord]
  simp only [Option.bind_eq_bind, Option.bind_some,
    Record.required?_eq (hfind 0 rfl) (encodes_word64 0 s.index),
    Record.required?_eq (hfind 1 rfl) (encodes_word64 0 s.total)]
  rfl

end PhrasingStats

theorem Interaction.encodes_history (history : List Interaction) :
    Encodes (list? ofJson?) 2 history (.array (history.map toJson)) :=
  encodes_list fun i _ => i.encodes_toJson

namespace FoundCandidate

/-- The floats of a found candidate. -/
def floats (c : FoundCandidate) : List Float :=
  c.retrievability :: c.concept.memory.floats

theorem encodes_ofFields {c : FoundCandidate} (h : ∀ x ∈ c.floats, ReadsBack x) :
    Encodes ofJson? 3 c (.ofFields c.fields) := by
  obtain ⟨r, hrecord, hfind⟩ := exists_record? (.ofFields c.fields) fieldNames rfl rfl (by decide)
  have hconcept := Concept.encodes_toJson fun x hx => h x (List.mem_cons_of_mem _ hx)
  have hphrasing := c.phrasing.encodes_toJson
  have hreason := c.selectionReason.encodes_toJson 2
  have hrecall := encodes_ofFloat 2 (h c.retrievability List.mem_cons_self)
  have hhistory := Interaction.encodes_history c.interactionHistory
  have hstats (s : PhrasingStats) := (s.encodes_toJson 1).clean
  refine ⟨clean_ofFields_iff.2 (by simp [fields, hconcept.clean, hphrasing.clean, hstats,
    hreason.clean, hrecall.clean, hhistory.clean]), ?_⟩
  rw [ofJson?, hrecord]
  simp only [Option.bind_eq_bind, Option.bind_some, Record.required?_eq (hfind 0 rfl) hconcept,
    Record.required?_eq (hfind 1 rfl) hphrasing,
    Record.optional?_eq_of_map (hfind 2 rfl) rfl fun s _ => s.encodes_toJson 1,
    Record.required?_eq (hfind 3 rfl) hreason, Record.required?_eq (hfind 4 rfl) hrecall,
    Record.defaulted?_eq (hfind 5 rfl) hhistory]
  rfl

end FoundCandidate

namespace ReviewCandidate

/-- The floats of a candidate. -/
def floats : ReviewCandidate → List Float
  | pending => []
  | empty => []
  | found c => c.floats

theorem splitKind_cons {j : Json} {rest : List (Literal × Json)}
    (h : ∀ f ∈ rest, f.1 ≠ some "kind") :
    splitKind ((some "kind", j) :: rest) = ([(some "kind", j)], rest) := by
  have hnone : rest.filter (fun f => decide (f.1 = some "kind")) = [] :=
    List.filter_eq_nil_iff.2 fun f hf hkind => h f hf (of_decide_eq_true hkind)
  have hall : rest.filter (fun f => !decide (f.1 = some "kind")) = rest :=
    List.filter_eq_self.2 fun f hf => by simp [h f hf]
  rw [splitKind, List.partition_eq_filter_filter]
  simp [Function.comp_def, hnone, hall]

/-- Taking the kind out of a document leaves the fields behind it. -/
theorem ofJson?_ofFields {d : Nat} {kind : String} {fields : List (String × Option Json)}
    (hclean : Clean d (.ofFields (("kind", some (.ofString kind)) :: fields)))
    (hd : d ≤ depthLimit) (hfields : "kind" ∉ fields.map (·.1)) :
    ofJson? (.ofFields (("kind", some (.ofString kind)) :: fields)) =
      ofKind? kind (.ofFields fields) true := by
  have hchecked : ((Json.ofFields (("kind", some (.ofString kind)) :: fields)).isSound &&
      (Json.ofFields (("kind", some (.ofString kind)) :: fields)).depth ≤ depthLimit) = true := by
    rw [hclean.isSound, decide_eq_true (hclean.depth_le.trans hd)]
    rfl
  have hother : ∀ f ∈ fields.filterMap fun f => f.2.map fun v => ((some f.1, v) : Literal × Json),
      f.1 ≠ some "kind" := by
    intro f hf hkind
    obtain ⟨name, j, hmem, rfl⟩ := mem_ofFields.1 hf
    exact hfields (Option.some.inj hkind ▸ List.mem_map_of_mem hmem)
  have hsplit := splitKind_cons (j := .string (some kind)) hother
  unfold ofJson?
  rw [if_pos hchecked]
  simp only [Json.ofFields, List.filterMap_cons, Option.map_some, hsplit, Json.ofString]

theorem encodes_toJson {c : ReviewCandidate} (h : ∀ x ∈ c.floats, ReadsBack x) :
    Encodes ofJson? 3 c c.toJson := by
  cases c with
  | pending =>
    have hclean : Clean 3 pending.toJson := clean_ofFields_iff.2 (by simp)
    exact ⟨hclean, ofJson?_ofFields hclean (by decide) (by decide)⟩
  | empty =>
    have hclean : Clean 3 empty.toJson := clean_ofFields_iff.2 (by simp)
    exact ⟨hclean, ofJson?_ofFields hclean (by decide) (by decide)⟩
  | found c =>
    have hfound := FoundCandidate.encodes_ofFields h
    have hclean : Clean 3 (found c).toJson :=
      clean_ofFields_iff.2 (List.forall_mem_cons.2 ⟨by simp, clean_ofFields_iff.1 hfound.clean⟩)
    have hfields : "kind" ∉ c.fields.map (·.1) := by
      show "kind" ∉ FoundCandidate.fieldNames
      decide
    refine ⟨hclean, (ofJson?_ofFields hclean (by decide) hfields).trans ?_⟩
    show (FoundCandidate.ofJson? (.ofFields c.fields)).map found = some (found c)
    rw [hfound.decode_eq, Option.map_some]

end ReviewCandidate

namespace SubmitRequest

theorem encodes_toJson (q : SubmitRequest) : Encodes ofJson? 1 q q.toJson := by
  obtain ⟨r, hrecord, hfind⟩ := exists_record? q.toJson fieldNames rfl rfl (by decide)
  refine ⟨clean_ofFields_iff.2 (by simp), ?_⟩
  rw [ofJson?, hrecord]
  simp only [Option.bind_eq_bind, Option.bind_some,
    Record.required?_eq (hfind 0 rfl) (encodes_ofString 0 q.conceptId),
    Record.required?_eq (hfind 1 rfl) (encodes_ofString 0 q.phrasingId),
    Record.required?_eq (hfind 2 rfl) (encodes_ofString 0 q.answer),
    Record.required?_eq (hfind 3 rfl) (encodes_bool 0 q.isCorrect),
    Record.required?_eq (hfind 4 rfl) (encodes_word64 0 q.elapsedMs),
    Record.optional?_eq_of_map (hfind 5 rfl) rfl fun s _ => encodes_ofString 0 s]
  rfl

end SubmitRequest

namespace SubmitOutcome

theorem encodes_toJson (o : SubmitOutcome) : Encodes ofJson? 1 o o.toJson := by
  obtain ⟨r, hrecord, hfind⟩ := exists_record? o.toJson fieldNames rfl rfl (by decide)
  have hstate := o.newState.encodes_toJson 0
  refine ⟨clean_ofFields_iff.2 (by simp [hstate.clean]), ?_⟩
  rw [ofJson?, hrecord]
  simp only [Option.bind_eq_bind, Option.bind_some,
    Record.required?_eq (hfind 0 rfl) (o.nextReview.encodes_toJson 0),
    Record.required?_eq (hfind 1 rfl) (encodes_word32 0 o.scheduledDays),
    Record.required?_eq (hfind 2 rfl) hstate,
    Record.required?_eq (hfind 3 rfl) (encodes_ofString 0 o.interactionId)]
  rfl

end SubmitOutcome

namespace ReviewPatch

theorem encodes_toJson {p : ReviewPatch} (h : ∀ x ∈ p.memory.floats, ReadsBack x) :
    Encodes ofJson? 2 p p.toJson := by
  obtain ⟨r, hrecord, hfind⟩ := exists_record? p.toJson fieldNames rfl rfl (by decide)
  have hmemory := MemoryState.encodes_toJson h
  have hinteraction := p.interaction.encodes_toJson
  refine ⟨clean_ofFields_iff.2 (by simp [hmemory.clean, hinteraction.clean]), ?_⟩
  rw [ofJson?, hrecord]
  simp only [Option.bind_eq_bind, Option.bind_some,
    Record.required?_eq (hfind 0 rfl) (encodes_ofString 0 p.conceptId),
    Record.required?_eq (hfind 1 rfl) hmemory,
    Record.required?_eq (hfind 2 rfl) (encodes_ofString 0 p.phrasingId),
    Record.required?_eq (hfind 3 rfl) (encodes_word32 0 p.attemptCount),
    Record.required?_eq (hfind 4 rfl) (p.lastAttemptedAt.encodes_toJson 0),
    Record.required?_eq (hfind 5 rfl) hinteraction]
  rfl

end ReviewPatch

namespace ReviewStats

theorem encodes_toJson (s : ReviewStats) : Encodes ofJson? 1 s s.toJson := by
  obtain ⟨r, hrecord, hfind⟩ := exists_record? s.toJson fieldNames rfl rfl (by decide)
  refine ⟨clean_ofFields_iff.2 (by simp), ?_⟩
  rw [ofJson?, hrecord]
  simp only [Option.bind_eq_bind, Option.bind_some,
    Record.required?_eq (hfind 0 rfl) (encodes_word64 0 s.totalConcepts),
    Record.required?_eq (hfind 1 rfl) (encodes_word64 0 s.dueNow),
    Record.required?_eq (hfind 2 rfl) (encodes_word64 0 s.newConcepts),
    Record.required?_eq (hfind 3 rfl) (encodes_word64 0 s.learning),
    Record.required?_eq (hfind 4 rfl) (encodes_word64 0 s.review),
    Record.required?_eq (hfind 5 rfl) (encodes_word64 0 s.relearning),
    Record.required?_eq (hfind 6 rfl) (encodes_word64 0 s.totalPhrasings),
    Record.required?_eq (hfind 7 rfl) (encodes_word64 0 s.totalInteractions)]
  rfl

end ReviewStats

end SpacedReview
