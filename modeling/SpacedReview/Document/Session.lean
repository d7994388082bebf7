import SpacedReview.Document.Review
import SpacedReview.Session.View

/-!
# Documents of sessions

How the state of a session and the view of a poll are written as documents, and how the state is
read. A question is one record with the lock behind the fields of its candidate, and a value that
is not there is written as `null`.
-/

namespace SpacedReview

namespace SessionPhase

/-- The document of a phase. -/
def toJson (p : SessionPhase) : Json :=
  .ofString p.name

/-- The phase of a document. -/
def ofJson? : Json → Option SessionPhase :=
  Json.named? name all

end SessionPhase

namespace Question

/-- The names of the fields. -/
def fieldNames : List String :=
  ["concept", "phrasing", "phrasingStats", "selectionReason", "retrievability",
    "interactionHistory", "lockToken"]

/-- The document of a question. -/
def toJson (q : Question) : Json :=
  let c := q.candidate
  .ofFields [
    ("concept", some c.concept.toJson),
    ("phrasing", some c.phrasing.toJson),
    ("phrasingStats", some (.ofOption PhrasingStats.toJson c.phrasingStats)),
    ("selectionReason", some c.selectionReason.toJson),
    ("retrievability", some (.ofFloat c.retrievability)),
    ("interactionHistory", some (.array (c.interactionHistory.map Interaction.toJson))),
    ("lockToken", some (.ofString q.lock))]

/-- The question of a document. -/
def ofJson? (j : Json) : Option Question := do
  let r ← j.record? fieldNames
  let candidate : FoundCandidate := {
    concept := ← r.required? "concept" Concept.ofJson?
    phrasing := ← r.required? "phrasing" Phrasing.ofJson?
    phrasingStats := ← r.nullable? "phrasingStats" PhrasingStats.ofJson?
    selectionReason := ← r.required? "selectionReason" SelectionReason.ofJson?
    retrievability := ← r.required? "retrievability" Json.float?
    interactionHistory := ← r.required? "interactionHistory" (Json.list? Interaction.ofJson?) }
  return { candidate, lock := ← r.required? "lockToken" Json.text? }

end Question

/-- The document of a set of texts: an array in ascending order. -/
def IdSet.toJson (s : IdSet) : Json :=
  .array (s.ids.map Json.ofString)

/-- The set of the texts in a document, in any order and however often they occur. -/
def IdSet.ofJson? (j : Json) : Option IdSet :=
  (j.list? Json.text?).map IdSet.ofList

namespace SessionState

/-- The names of the fields. -/
def fieldNames : List String :=
  ["phase", "question", "lockToken", "isTransitioning", "skippedConceptIds",
    "lastAutoSkippedId", "errorMessage"]

/-- The document of a session state. -/
def toJson (s : SessionState) : Json :=
  .ofFields [
    ("phase", some s.phase.toJson),
    ("question", some (.ofOption Question.toJson s.question)),
    ("lockToken", some (.ofOption Json.ofString s.lock)),
    ("isTransitioning", some (.bool s.isTransitioning)),
    ("skippedConceptIds", some s.skipped.toJson),
    ("lastAutoSkippedId", some (.ofOption Json.ofString s.lastAutoSkipped)),
    ("errorMessage", some (.ofOption Json.ofString s.errorMessage))]

/-- The session state of a document. -/
def ofJson? (j : Json) : Option SessionState := do
  let r ← j.record? fieldNames
  return {
    phase := ← r.required? "phase" SessionPhase.ofJson?
    question := ← r.nullable? "question" Question.ofJson?
    lock := ← r.nullable? "lockToken" Json.text?
    isTransitioning := ← r.required? "isTransitioning" Json.bool?
    skipped := ← r.required? "skippedConceptIds" IdSet.ofJson?
    lastAutoSkipped := ← r.nullable? "lastAutoSkippedId" Json.text?
    errorMessage := ← r.nullable? "errorMessage" Json.text? }

end SessionState

/-- The document of what a session has skipped. -/
def SkipView.toJson (v : SkipView) : Json :=
  .ofFields [
    ("skipped", some v.skipped.toJson),
    ("lastAutoSkipped", some (.ofOption Json.ofString v.lastAutoSkipped))]

/-- The document of a poll view. -/
def PollView.toJson (v : PollView) : Json :=
  .ofFields [
    ("generation", some (.ofNat v.generation)),
    ("skips", some v.skips.toJson)]

end SpacedReview
