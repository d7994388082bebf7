import SpacedReview.Catalog.Concept
import SpacedReview.Catalog.Phrasing
import SpacedReview.Document.Memory
import SpacedReview.Selection

/-!
# Documents of the catalog

How concepts, phrasings, interactions and the options of a selection are written as documents and
read from them. Optional texts and times are left out when there are none, except in the options
of a selection, which write `null`.
-/

namespace SpacedReview

namespace Concept

/-- The names of the fields. -/
def fieldNames : List String :=
  ["id", "title", "description", "memoryState", "canonicalPhrasingId", "createdAt", "updatedAt"]

/-- The document of a concept. -/
def toJson (c : Concept) : Json :=
  .ofFields [
    ("id", some (.ofString c.id)),
    ("title", some (.ofString c.title)),
    ("description", c.description.map Json.ofString),
    ("memoryState", some c.memory.toJson),
    ("canonicalPhrasingId", c.canonicalPhrasing.map Json.ofString),
    ("createdAt", some c.createdAt.toJson),
    ("updatedAt", some c.updatedAt.toJson)]

/-- The concept of a document. -/
def ofJson? (j : Json) : Option Concept := do
  let r ← j.record? fieldNames
  return {
    id := ← r.required? "id" Json.text?
    title := ← r.required? "title" Json.text?
    description := ← r.optional? "description" Json.text?
    memory := ← r.required? "memoryState" MemoryState.ofJson?
    canonicalPhrasing := ← r.optional? "canonicalPhrasingId" Json.text?
    createdAt := ← r.required? "createdAt" Instant.ofJson?
    updatedAt := ← r.required? "updatedAt" Instant.ofJson? }

end Concept

namespace Phrasing

/-- The names of the fields. -/
def fieldNames : List String :=
  ["id", "conceptId", "question", "options", "correctAnswer", "explanation", "attemptCount",
    "lastAttemptedAt", "createdAt", "archivedAt", "deletedAt"]

/-- The document of a list of texts. -/
def optionsToJson (options : List String) : Json :=
  .array (options.map Json.ofString)

/-- The list of texts of a document. -/
def optionsOfJson? : Json → Option (List String) :=
  Json.list? Json.text?

/-- The document of a phrasing. -/
def toJson (p : Phrasing) : Json :=
  .ofFields [
    ("id", some (.ofString p.id)),
    ("conceptId", some (.ofString p.conceptId)),
    ("question", some (.ofString p.question)),
    ("options", some (optionsToJson p.options)),
    ("correctAnswer", some (.ofString p.correctAnswer)),
    ("explanation", p.explanation.map Json.ofString),
    ("attemptCount", some (.ofNat p.attemptCount.toNat)),
    ("lastAttemptedAt", p.lastAttemptedAt.map Instant.toJson),
    ("createdAt", some p.createdAt.toJson),
    ("archivedAt", p.archivedAt.map Instant.toJson),
    ("deletedAt", p.deletedAt.map Instant.toJson)]

/-- The phrasing of a document. -/
def ofJson? (j : Json) : Option Phrasing := do
  let r ← j.record? fieldNames
  return {
    id := ← r.required? "id" Json.text?
    conceptId := ← r.required? "conceptId" Json.text?
    question := ← r.required? "question" Json.text?
    options := ← r.defaulted? "options" [] optionsOfJson?
    correctAnswer := ← r.required? "correctAnswer" Json.text?
    explanation := ← r.optional? "explanation" Json.text?
    attemptCount := ← r.defaulted? "attemptCount" 0 Json.word32?
    lastAttemptedAt := ← r.optional? "lastAttemptedAt" Instant.ofJson?
    createdAt := ← r.required? "createdAt" Instant.ofJson?
    archivedAt := ← r.optional? "archivedAt" Instant.ofJson?
    deletedAt := ← r.optional? "deletedAt" Instant.ofJson? }

end Phrasing

namespace Interaction

/-- The names of the fields. -/
def fieldNames : List String :=
  ["id", "conceptId", "phrasingId", "userAnswer", "isCorrect", "elapsedMs", "sessionId",
    "attemptedAt"]

/-- The document of an interaction. -/
def toJson (i : Interaction) : Json :=
  .ofFields [
    ("id", some (.ofString i.id)),
    ("conceptId", some (.ofString i.conceptId)),
    ("phrasingId", some (.ofString i.phrasingId)),
    ("userAnswer", some (.ofString i.userAnswer)),
    ("isCorrect", some (.bool i.isCorrect)),
    ("elapsedMs", some (.ofNat i.elapsedMs.toNat)),
    ("sessionId", i.sessionId.map Json.ofString),
    ("attemptedAt", some i.attemptedAt.toJson)]

/-- The interaction of a document. -/
def ofJson? (j : Json) : Option Interaction := do
  let r ← j.record? fieldNames
  return {
    id := ← r.required? "id" Json.text?
    conceptId := ← r.required? "conceptId" Json.text?
    phrasingId := ← r.required? "phrasingId" Json.text?
    userAnswer := ← r.required? "userAnswer" Json.text?
    isCorrect := ← r.required? "isCorrect" Json.bool?
    elapsedMs := ← r.required? "elapsedMs" Json.word64?
    sessionId := ← r.optional? "sessionId" Json.text?
    attemptedAt := ← r.required? "attemptedAt" Instant.ofJson? }

end Interaction

namespace SelectionReason

/-- The document of a reason. -/
def toJson (r : SelectionReason) : Json :=
  .ofString r.name

/-- The reason of a document. -/
def ofJson? : Json → Option SelectionReason :=
  Json.named? name all

end SelectionReason

namespace SelectionOptions

/-- The names of the fields. -/
def fieldNames : List String :=
  ["canonicalId", "excludeId", "preferLeastSeen"]

/-- The document of the options. -/
def toJson (o : SelectionOptions) : Json :=
  .ofFields [
    ("canonicalId", some (.ofOption Json.ofString o.canonicalId)),
    ("excludeId", some (.ofOption Json.ofString o.excludeId)),
    ("preferLeastSeen", some (.bool o.preferLeastSeen))]

/-- The options of a document; those it leaves out are the standard ones. -/
def ofJson? (j : Json) : Option SelectionOptions := do
  let r ← j.record? fieldNames
  return {
    canonicalId := ← r.optional? "canonicalId" Json.text?
    excludeId := ← r.optional? "excludeId" Json.text?
    preferLeastSeen := ← r.defaulted? "preferLeastSeen" true Json.bool? }

end SelectionOptions

end SpacedReview
