import SpacedReview.Digest.Sha256
import SpacedReview.Document.Session
import SpacedReview.Json.Writer

/-!
# Fingerprints of poll results

Two results are the same news if they were fetched under the same view and agree in everything
that does not drift with time, which is all but the estimated recall. `fingerprintText` writes
exactly that down, and `fingerprint` is its digest.
-/

namespace SpacedReview

/-- The document of what does not drift in a candidate. -/
def ReviewCandidate.stableJson (c : ReviewCandidate) : Json :=
  .ofFields (("kind", some (.ofString c.kind)) ::
    match c with
    | pending => []
    | empty => []
    | found f => [
        ("concept", some f.concept.toJson),
        ("phrasing", some f.phrasing.toJson),
        ("phrasingStats", some (.ofOption PhrasingStats.toJson f.phrasingStats)),
        ("selectionReason", some f.selectionReason.toJson),
        ("interactionHistory", some (.array (f.interactionHistory.map Interaction.toJson)))])

/-- The text that tells poll results apart. -/
def fingerprintText (v : PollView) (c : ReviewCandidate) : String :=
  (Json.array [v.toJson, c.stableJson]).write

/-- The digest of the text that tells poll results apart. -/
def fingerprint (v : PollView) (c : ReviewCandidate) : String :=
  Sha256.hex (fingerprintText v c)

end SpacedReview
