import SpacedReview.Document.Catalog
import SpacedReview.Review.Basic

/-!
# Documents of the review queue

How candidates, requests, outcomes, patches and overviews are written as documents and read from
them. A candidate is told by its field `kind`, and a found one has its other fields beside it.
Since the kind can stand anywhere among the fields, a candidate's document is read as a whole
first: every string in it must have a text, every number must be in range, and it must not be
nested too deeply.
-/

namespace SpacedReview

namespace PhrasingStats

/-- The names of the fields. -/
def fieldNames : List String :=
  ["index", "total"]

/-- The document of a place. -/
def toJson (s : PhrasingStats) : Json :=
  .ofFields [
    ("index", some (.ofNat s.index.toNat)),
    ("total", some (.ofNat s.total.toNat))]

/-- The place of a document. -/
def ofJson? (j : Json) : Option PhrasingStats := do
  let r ← j.record? fieldNames
  return {
    index := ← r.required? "index" Json.word64?
    total := ← r.required? "total" Json.word64? }

end PhrasingStats

namespace FoundCandidate

/-- The names of the fields. -/
def fieldNames : List String :=
  ["concept", "phrasing", "phrasingStats", "selectionReason", "retrievability",
    "interactionHistory"]

/-- The fields of a found candidate. -/
def fields (c : FoundCandidate) : List (String × Option Json) := [
  ("concept", some c.concept.toJson),
  ("phrasing", some c.phrasing.toJson),
  ("phrasingStats", c.phrasingStats.map PhrasingStats.toJson),
  ("selectionReason", some c.selectionReason.toJson),
  ("retrievability", some (.ofFloat c.retrievability)),
  ("interactionHistory", some (.array (c.interactionHistory.map Interaction.toJson)))]

/-- The found candidate of a document. -/
def ofJson? (j : Json) : Option FoundCandidate := do
  let r ← j.record? fieldNames
  return {
    concept := ← r.required? "concept" Concept.ofJson?
    phrasing := ← r.required? "phrasing" Phrasing.ofJson?
    phrasingStats := ← r.optional? "phrasingStats" PhrasingStats.ofJson?
    selectionReason := ← r.required? "selectionReason" SelectionReason.ofJson?
    retrievability := ← r.required? "retrievability" Json.float?
    interactionHistory :=
      ← r.defaulted? "interactionHistory" [] (Json.list? Interaction.ofJson?) }

end FoundCandidate

namespace ReviewCandidate

/-- The name of the kind of a candidate. -/
def kind : ReviewCandidate → String
  | pending => "pending"
  | empty => "empty"
  | found _ => "found"

/-- The document of a candidate. -/
def toJson (c : ReviewCandidate) : Json :=
  .ofFields (("kind", some (.ofString c.kind)) ::
    match c with
    | pending => []
    | empty => []
    | found f => f.fields)

/-- The deepest nesting of a candidate's document. -/
def depthLimit : Nat := 127

/-- The fields that are named `kind`, and the others. -/
def splitKind (fields : List (Json.Literal × Json)) :
    List (Json.Literal × Json) × List (Json.Literal × Json) :=
  fields.partition fun f => f.1 = some "kind"

/-- The candidate of a kind, from what stands beside the kind. `bare` tells if that may be
    ignored by the kinds that have no fields. -/
def ofKind? (kind : String) (rest : Json) (bare : Bool) : Option ReviewCandidate :=
  match kind with
  | "pending" => if bare then some .pending else none
  | "empty" => if bare then some .empty else none
  | "found" => (FoundCandidate.ofJson? rest).map .found
  | _ => none

/-- The candidate of a document: an object, or an array that begins with the kind. -/
def ofJson? (j : Json) : Option ReviewCandidate :=
  if j.isSound && j.depth ≤ depthLimit then
    match j with
    | .object fields =>
      match splitKind fields with
      | ([(_, .string (some kind))], rest) => ofKind? kind (.object rest) true
      | _ => none
    | .array (.string (some kind) :: rest) => ofKind? kind (.array rest) rest.isEmpty
    | _ => none
  else none

end ReviewCandidate

namespace SubmitRequest

/-- The names of the fields. -/
def fieldNames : List String :=
  ["conceptId", "phrasingId", "answer", "isCorrect", "elapsedMs", "sessionId"]

/-- The document of an answer. -/
def toJson (r : SubmitRequest) : Json :=
  .ofFields [
    ("conceptId", some (.ofString r.conceptId)),
    ("phrasingId", some (.ofString r.phrasingId)),
    ("answer", some (.ofString r.answer)),
    ("isCorrect", some (.bool r.isCorrect)),
    ("elapsedMs", some (.ofNat r.elapsedMs.toNat)),
    ("sessionId", r.sessionId.map Json.ofString)]

/-- The answer of a document. -/
def ofJson? (j : Json) : Option SubmitRequest := do
  let r ← j.record? fieldNames
  return {
    conceptId := ← r.required? "conceptId" Json.text?
    phrasingId := ← r.required? "phrasingId" Json.text?
    answer := ← r.required? "answer" Json.text?
    isCorrect := ← r.required? "isCorrect" Json.bool?
    elapsedMs := ← r.required? "elapsedMs" Json.word64?
    sessionId := ← r.optional? "sessionId" Json.text? }

end SubmitRequest

namespace SubmitOutcome

/-- The names of the fields. -/
def fieldNames : List String :=
  ["nextReview", "scheduledDays", "newState", "interactionId"]

/-- The document of an outcome. -/
def toJson (o : SubmitOutcome) : Json :=
  .ofFields [
    ("nextReview", some o.nextReview.toJson),
    ("scheduledDays", some (.ofNat o.scheduledDays.toNat)),
    ("newState", some o.newState.toJson),
    ("interactionId", some (.ofString o.interactionId))]

/-- The outcome of a document. -/
def ofJson? (j : Json) : Option SubmitOutcome := do
  let r ← j.record? fieldNames
  return {
    nextReview := ← r.required? "nextReview" Instant.ofJson?
    scheduledDays := ← r.required? "scheduledDays" Json.word32?
    newState := ← r.required? "newState" LearningState.ofJson?
    interactionId := ← r.required? "interactionId" Json.text? }

end SubmitOutcome

namespace ReviewPatch

/-- The names of the fields. -/
def fieldNames : List String :=
  ["conceptId", "memoryState", "phrasingId", "phrasingAttemptCount", "phrasingLastAttemptedAt",
    "interaction"]

/-- The document of a patch. -/
def toJson (p : ReviewPatch) : Json :=
  .ofFields [
    ("conceptId", some (.ofString p.conceptId)),
    ("memoryState", some p.memory.toJson),
    ("phrasingId", some (.ofString p.phrasingId)),
    ("phrasingAttemptCount", some (.ofNat p.attemptCount.toNat)),
    ("phrasingLastAttemptedAt", some p.lastAttemptedAt.toJson),
    ("interaction", some p.interaction.toJson)]

/-- The patch of a document. -/
def ofJson? (j : Json) : Option ReviewPatch := do
  let r ← j.record? fieldNames
  return {
    conceptId := ← r.required? "conceptId" Json.text?
    memory := ← r.required? "memoryState" MemoryState.ofJson?
    phrasingId := ← r.required? "phrasingId" Json.text?
    attemptCount := ← r.required? "phrasingAttemptCount" Json.word32?
    lastAttemptedAt := ← r.required? "phrasingLastAttemptedAt" Instant.ofJson?
    interaction := ← r.required? "interaction" Interaction.ofJson? }

end ReviewPatch

namespace ReviewStats

/-- The names of the fields. -/
def fieldNames : List String :=
  ["totalConcepts", "dueNow", "newConcepts", "learning", "review", "relearning",
    "totalPhrasings", "totalInteractions"]

/-- The document of an overview. -/
def toJson (s : ReviewStats) : Json :=
  .ofFields [
    ("totalConcepts", some (.ofNat s.totalConcepts.toNat)),
    ("dueNow", some (.ofNat s.dueNow.toNat)),
    ("newConcepts", some (.ofNat s.newConcepts.toNat)),
    ("learning", some (.ofNat s.learning.toNat)),
    ("review", some (.ofNat s.review.toNat)),
    ("relearning", some (.ofNat s.relearning.toNat)),
    ("totalPhrasings", some (.ofNat s.totalPhrasings.toNat)),
    ("totalInteractions", some (.ofNat s.totalInteractions.toNat))]

/-- The overview of a document. -/
def ofJson? (j : Json) : Option ReviewStats := do
  let r ← j.record? fieldNames
  return {
    totalConcepts := ← r.required? "totalConcepts" Json.word64?
    dueNow := ← r.required? "dueNow" Json.word64?
    newConcepts := ← r.required? "newConcepts" Json.word64?
    learning := ← r.required? "learning" Json.word64?
    review := ← r.required? "review" Json.word64?
    relearning := ← r.required? "relearning" Json.word64?
    totalPhrasings := ← r.required? "totalPhrasings" Json.word64?
    totalInteractions := ← r.required? "totalInteractions" Json.word64? }

end ReviewStats

end SpacedReview
