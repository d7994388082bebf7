import SpacedReview.Document.Catalog
import SpacedReview.Proofs.Json.Records
import SpacedReview.Proofs.Time.ExactStamps

/-!
# Documents of the retention model and the catalog are decoded

A memory state, parameters, a schedule, a concept, a phrasing, an interaction and the options of a
selection are decoded from the documents that they are written as. Only floats need an assumption:
the text of each of them has to be read as the same float.
-/

namespace SpacedReview

open Json

namespace Instant

@[simp] theorem clean_toJson (d : Nat) (t : Instant) : Clean d t.toJson :=
  .string d _

theorem encodes_toJson (d : Nat) (t : Instant) : Encodes ofJson? d t t.toJson where
  clean := t.clean_toJson d
  decode_eq := by
    have htext : t.toJson.text? = some t.stamp := rfl
    rw [ofJson?, htext, Option.bind_some, read?_stamp]

end Instant

theorem Rating.encodes_toJson (d : Nat) (r : Rating) : Encodes ofJson? d r r.toJson :=
  encodes_named d (by cases r <;> decide) (by cases r <;> decide)

theorem LearningState.encodes_toJson (d : Nat) (s : LearningState) :
    Encodes ofJson? d s s.toJson :=
  encodes_named d (by cases s <;> decide) (by cases s <;> decide)

theorem SelectionReason.encodes_toJson (d : Nat) (r : SelectionReason) :
    Encodes ofJson? d r r.toJson :=
  encodes_named d (by cases r <;> decide) (by cases r <;> decide)

/-! ## The retention model -/

namespace MemoryState

/-- The floats of a memory state. -/
def floats (m : MemoryState) : List Float :=
  [m.stability, m.difficulty]

theorem encodes_toJson {m : MemoryState} (h : ∀ x ∈ m.floats, ReadsBack x) :
    Encodes ofJson? 1 m m.toJson := by
  obtain ⟨r, hrecord, hfind⟩ := exists_record? m.toJson fieldNames rfl rfl (by decide)
  have hstate := m.state.encodes_toJson 0
  have hstability := encodes_ofFloat 0 (h m.stability (by simp [floats]))
  have hdifficulty := encodes_ofFloat 0 (h m.difficulty (by simp [floats]))
  refine ⟨clean_ofFields_iff.2 (by simp [hstate.clean, hstability.clean, hdifficulty.clean]), ?_⟩
  rw [ofJson?, hrecord]
  simp only [Option.bind_eq_bind, Option.bind_some, Record.defaulted?_eq (hfind 0 rfl) hstate,
    Record.required?_eq (hfind 1 rfl) hstability, Record.required?_eq (hfind 2 rfl) hdifficulty,
    Record.required?_eq (hfind 3 rfl) (encodes_word32 0 m.reps),
    Record.required?_eq (hfind 4 rfl) (encodes_word32 0 m.lapses),
    Record.optional?_eq_of_map (hfind 5 rfl) rfl fun t _ => t.encodes_toJson 0,
    Record.required?_eq (hfind 6 rfl) (m.nextReview.encodes_toJson 0)]
  rfl

end MemoryState

theorem Weights.encodes_toJson {w : Weights} (h : ∀ x ∈ w.toList, ReadsBack x) :
    Encodes ofJson? 1 w (Weights.toJson w) := by
  have hlist := encodes_list fun x hx => encodes_ofFloat 0 (h x hx)
  have hlength : w.toList.length = 21 := w.length_toList
  refine ⟨hlist.clean, ?_⟩
  rw [ofJson?, toJson, hlist.decode_eq]
  simp only [Option.bind_eq_bind, Option.bind_some, dif_pos hlength]
  rfl

namespace Parameters

/-- The floats of parameters. -/
def floats (p : Parameters) : List Float :=
  p.desiredRetention :: p.weights.toList

theorem encodes_stepsToJson (steps : List UInt32) :
    Encodes (list? word32?) 1 steps (stepsToJson steps) :=
  encodes_list fun n _ => encodes_word32 0 n

theorem encodes_toJson {p : Parameters} (h : ∀ x ∈ p.floats, ReadsBack x) :
    Encodes ofJson? 2 p p.toJson := by
  obtain ⟨r, hrecord, hfind⟩ := exists_record? p.toJson fieldNames rfl rfl (by decide)
  have hweights := Weights.encodes_toJson fun x hx => h x (List.mem_cons_of_mem _ hx)
  have hretention := encodes_ofFloat 1 (h p.desiredRetention List.mem_cons_self)
  have hlearning := encodes_stepsToJson p.learningSteps
  have hrelearning := encodes_stepsToJson p.relearningSteps
  refine ⟨clean_ofFields_iff.2 (by simp [hweights.clean, hretention.clean, hlearning.clean,
    hrelearning.clean]), ?_⟩
  rw [ofJson?, hrecord]
  simp only [Option.bind_eq_bind, Option.bind_some, Record.required?_eq (hfind 0 rfl) hweights,
    Record.required?_eq (hfind 1 rfl) hretention,
    Record.required?_eq (hfind 2 rfl) (encodes_word32 0 p.maximumInterval),
    Record.required?_eq (hfind 3 rfl) hlearning, Record.required?_eq (hfind 4 rfl) hrelearning]
  rfl

end Parameters

namespace ScheduleResult

theorem encodes_toJson {s : ScheduleResult} (h : ∀ x ∈ s.memory.floats, ReadsBack x) :
    Encodes ofJson? 2 s s.toJson := by
  obtain ⟨r, hrecord, hfind⟩ := exists_record? s.toJson fieldNames rfl rfl (by decide)
  have hmemory := MemoryState.encodes_toJson h
  have hrating := s.rating.encodes_toJson 1
  have hstate := s.lifecycleState.encodes_toJson 1
  refine ⟨clean_ofFields_iff.2 (by simp [hmemory.clean, hrating.clean, hstate.clean]), ?_⟩
  rw [ofJson?, hrecord]
  simp only [Option.bind_eq_bind, Option.bind_some, Record.required?_eq (hfind 0 rfl) hmemory,
    Record.required?_eq (hfind 1 rfl) hrating,
    Record.required?_eq (hfind 2 rfl) (s.nextReview.encodes_toJson 0),
    Record.required?_eq (hfind 3 rfl) (s.dueDate.encodes_toJson 0),
    Record.required?_eq (hfind 4 rfl) hstate,
    Record.required?_eq (hfind 5 rfl) (encodes_word32 0 s.scheduledDays)]
  rfl

end ScheduleResult

/-! ## The catalog -/

namespace Concept

theorem encodes_toJson {c : Concept} (h : ∀ x ∈ c.memory.floats, ReadsBack x) :
    Encodes ofJson? 2 c c.toJson := by
  obtain ⟨r, hrecord, hfind⟩ := exists_record? c.toJson fieldNames rfl rfl (by decide)
  have hmemory := MemoryState.encodes_toJson h
  refine ⟨clean_ofFields_iff.2 (by simp [hmemory.clean]), ?_⟩
  rw [ofJson?, hrecord]
  simp only [Option.bind_eq_bind, Option.bind_some,
    Record.required?_eq (hfind 0 rfl) (encodes_ofString 0 c.id),
    Record.required?_eq (hfind 1 rfl) (encodes_ofString 0 c.title),
    Record.optional?_eq_of_map (hfind 2 rfl) rfl fun s _ => encodes_ofString 0 s,
    Record.required?_eq (hfind 3 rfl) hmemory,
    Record.optional?_eq_of_map (hfind 4 rfl) rfl fun s _ => encodes_ofString 0 s,
    Record.required?_eq (hfind 5 rfl) (c.createdAt.encodes_toJson 0),
    Record.required?_eq (hfind 6 rfl) (c.updatedAt.encodes_toJson 0)]
  rfl

end Concept

namespace Phrasing

theorem encodes_optionsToJson (options : List String) :
    Encodes optionsOfJson? 1 options (optionsToJson options) :=
  encodes_list fun s _ => encodes_ofString 0 s

theorem encodes_toJson (p : Phrasing) : Encodes ofJson? 2 p p.toJson := by
  obtain ⟨r, hrecord, hfind⟩ := exists_record? p.toJson fieldNames rfl rfl (by decide)
  have hoptions := encodes_optionsToJson p.options
  refine ⟨clean_ofFields_iff.2 (by simp [hoptions.clean]), ?_⟩
  rw [ofJson?, hrecord]
  simp only [Option.bind_eq_bind, Option.bind_some,
    Record.required?_eq (hfind 0 rfl) (encodes_ofString 0 p.id),
    Record.required?_eq (hfind 1 rfl) (encodes_ofString 0 p.conceptId),
    Record.required?_eq (hfind 2 rfl) (encodes_ofString 0 p.question),
    Record.defaulted?_eq (hfind 3 rfl) hoptions,
    Record.required?_eq (hfind 4 rfl) (encodes_ofString 0 p.correctAnswer),
    Record.optional?_eq_of_map (hfind 5 rfl) rfl fun s _ => encodes_ofString 0 s,
    Record.defaulted?_eq (hfind 6 rfl) (encodes_word32 0 p.attemptCount),
    Record.optional?_eq_of_map (hfind 7 rfl) rfl fun t _ => t.encodes_toJson 0,
    Record.required?_eq (hfind 8 rfl) (p.createdAt.encodes_toJson 0),
    Record.optional?_eq_of_map (hfind 9 rfl) rfl fun t _ => t.encodes_toJson 0,
    Record.optional?_eq_of_map (hfind 10 rfl) rfl fun t _ => t.encodes_toJson 0]
  rfl

end Phrasing

namespace Interaction

theorem encodes_toJson (i : Interaction) : Encodes ofJson? 1 i i.toJson := by
  obtain ⟨r, hrecord, hfind⟩ := exists_record? i.toJson fieldNames rfl rfl (by decide)
  refine ⟨clean_ofFields_iff.2 (by simp), ?_⟩
  rw [ofJson?, hrecord]
  simp only [Option.bind_eq_bind, Option.bind_some,
    Record.required?_eq (hfind 0 rfl) (encodes_ofString 0 i.id),
    Record.required?_eq (hfind 1 rfl) (encodes_ofString 0 i.conceptId),
    Record.required?_eq (hfind 2 rfl) (encodes_ofString 0 i.phrasingId),
    Record.required?_eq (hfind 3 rfl) (encodes_ofString 0 i.userAnswer),
    Record.required?_eq (hfind 4 rfl) (encodes_bool 0 i.isCorrect),
    Record.required?_eq (hfind 5 rfl) (encodes_word64 0 i.elapsedMs),
    Record.optional?_eq_of_map (hfind 6 rfl) rfl fun s _ => encodes_ofString 0 s,
    Record.required?_eq (hfind 7 rfl) (i.attemptedAt.encodes_toJson 0)]
  rfl

end Interaction

namespace SelectionOptions

theorem encodes_toJson (o : SelectionOptions) : Encodes ofJson? 1 o o.toJson := by
  obtain ⟨r, hrecord, hfind⟩ := exists_record? o.toJson fieldNames rfl rfl (by decide)
  have htext (s : Option String) : Encodes (option? text?) 0 s (.ofOption ofString s) :=
    encodes_ofOption rfl fun s _ => encodes_ofString 0 s
  have hcanonical := htext o.canonicalId
  have hexclude := htext o.excludeId
  refine ⟨clean_ofFields_iff.2 (by simp [hcanonical.clean, hexclude.clean]), ?_⟩
  rw [ofJson?, hrecord]
  simp only [Option.bind_eq_bind, Option.bind_some, Record.optional?_eq (hfind 0 rfl) hcanonical,
    Record.optional?_eq (hfind 1 rfl) hexclude,
    Record.defaulted?_eq (hfind 2 rfl) (encodes_bool 0 o.preferLeastSeen)]
  rfl

end SelectionOptions

end SpacedReview
