import Mathlib.Data.List.Sort
import Mathlib.Data.String.Basic
import SpacedReview.Document.Session
import SpacedReview.Proofs.Document.Review

/-!
# Documents of sessions are decoded

A session state is decoded from the document that it is written as. The skipped concepts are a set,
so their order in the document does not matter, nor does it matter how often one occurs.
-/

namespace SpacedReview

open Json

namespace IdSet

variable {s t : IdSet}

theorem ext_of_mem (h : ∀ x, x ∈ s ↔ x ∈ t) : s = t := by
  obtain ⟨ids, hids⟩ := s
  obtain ⟨ids', hids'⟩ := t
  obtain rfl : ids = ids' := hids.eq_of_mem_iff hids' h
  rfl

theorem ofList_eq {xs : List String} (h : ∀ x, x ∈ xs ↔ x ∈ s) : ofList xs = s :=
  ext_of_mem fun x => mem_ofList.trans (h x)

/-- A set is decoded from any listing of its members. -/
theorem encodes_listing (d : Nat) {ids : List String} (h : ∀ x, x ∈ ids ↔ x ∈ s) :
    Encodes ofJson? (d + 1) s (.array (ids.map ofString)) := by
  have hlist : Encodes (list? text?) (d + 1) ids (.array (ids.map ofString)) :=
    encodes_list fun x _ => encodes_ofString d x
  refine ⟨hlist.clean, ?_⟩
  rw [ofJson?, hlist.decode_eq, Option.map_some, ofList_eq h]

end IdSet

theorem SessionPhase.encodes_toJson (d : Nat) (p : SessionPhase) : Encodes ofJson? d p p.toJson :=
  encodes_named d (by cases p <;> decide) (by cases p <;> decide)

namespace Question

theorem encodes_toJson {q : Question} (h : ∀ x ∈ q.candidate.floats, ReadsBack x) :
    Encodes ofJson? 3 q q.toJson := by
  obtain ⟨r, hrecord, hfind⟩ := exists_record? q.toJson fieldNames rfl rfl (by decide)
  have hconcept := Concept.encodes_toJson fun x hx => h x (List.mem_cons_of_mem _ hx)
  have hphrasing := q.candidate.phrasing.encodes_toJson
  have hstats : Encodes (option? PhrasingStats.ofJson?) 2 q.candidate.phrasingStats _ :=
    encodes_ofOption rfl fun s _ => s.encodes_toJson 1
  have hreason := q.candidate.selectionReason.encodes_toJson 2
  have hrecall := encodes_ofFloat 2 (h q.candidate.retrievability List.mem_cons_self)
  have hhistory := Interaction.encodes_history q.candidate.interactionHistory
  refine ⟨clean_ofFields_iff.2 (by simp [hconcept.clean, hphrasing.clean, hstats.clean,
    hreason.clean, hrecall.clean, hhistory.clean]), ?_⟩
  rw [ofJson?, hrecord]
  simp only [Option.bind_eq_bind, Option.bind_some, Record.required?_eq (hfind 0 rfl) hconcept,
    Record.required?_eq (hfind 1 rfl) hphrasing, Record.nullable?_eq (hfind 2 rfl) hstats,
    Record.required?_eq (hfind 3 rfl) hreason, Record.required?_eq (hfind 4 rfl) hrecall,
    Record.required?_eq (hfind 5 rfl) hhistory,
    Record.required?_eq (hfind 6 rfl) (encodes_ofString 0 q.lock)]
  rfl

end Question

namespace SessionState

/-- The floats of a session state. -/
def floats (s : SessionState) : List Float :=
  match s.question with
  | none => []
  | some q => q.candidate.floats

/-- The document of a session state with the skipped concepts in a given order. -/
def toJsonListing (s : SessionState) (ids : List String) : Json :=
  .ofFields [
    ("phase", some s.phase.toJson),
    ("question", some (.ofOption Question.toJson s.question)),
    ("lockToken", some (.ofOption Json.ofString s.lock)),
    ("isTransitioning", some (.bool s.isTransitioning)),
    ("skippedConceptIds", some (.array (ids.map Json.ofString))),
    ("lastAutoSkippedId", some (.ofOption Json.ofString s.lastAutoSkipped)),
    ("errorMessage", some (.ofOption Json.ofString s.errorMessage))]

theorem toJsonListing_skipped (s : SessionState) : s.toJsonListing s.skipped.ids = s.toJson :=
  rfl

theorem encodes_toJsonListing {s : SessionState} {ids : List String}
    (hids : ∀ x, x ∈ ids ↔ x ∈ s.skipped) (h : ∀ x ∈ s.floats, ReadsBack x) :
    Encodes ofJson? 4 s (s.toJsonListing ids) := by
  obtain ⟨r, hrecord, hfind⟩ := exists_record? (s.toJsonListing ids) fieldNames rfl rfl (by decide)
  have hphase := s.phase.encodes_toJson 3
  have hquestion : Encodes (option? Question.ofJson?) 3 s.question _ :=
    encodes_ofOption rfl fun q hq => Question.encodes_toJson fun x hx => h x <| by
      rw [floats, Option.mem_def.1 hq]
      exact hx
  have htext (o : Option String) : Encodes (option? text?) 3 o (.ofOption ofString o) :=
    encodes_ofOption rfl fun t _ => encodes_ofString 3 t
  have hlock := htext s.lock
  have hlast := htext s.lastAutoSkipped
  have herror := htext s.errorMessage
  have hskipped := IdSet.encodes_listing 2 hids
  refine ⟨clean_ofFields_iff.2 (by simp [hphase.clean, hquestion.clean, hlock.clean, hlast.clean,
    herror.clean, hskipped.clean]), ?_⟩
  rw [ofJson?, hrecord]
  simp only [Option.bind_eq_bind, Option.bind_some, Record.required?_eq (hfind 0 rfl) hphase,
    Record.nullable?_eq (hfind 1 rfl) hquestion, Record.nullable?_eq (hfind 2 rfl) hlock,
    Record.required?_eq (hfind 3 rfl) (encodes_bool 0 s.isTransitioning),
    Record.required?_eq (hfind 4 rfl) hskipped, Record.nullable?_eq (hfind 5 rfl) hlast,
    Record.nullable?_eq (hfind 6 rfl) herror]
  rfl

end SessionState

end SpacedReview
