import SpacedReview.Proofs.Text.Bytes
import SpacedReview.Session.Fingerprint

/-!
# Fingerprints by computation

A fingerprint is the digest of the bytes of a text. Read from the characters of the document, the
bytes need no text in between, and fingerprints of given documents can be compared by computation.

## Main statements

- `fingerprint_ne` — two fingerprints differ if the digests of the documents do
-/

namespace SpacedReview

/-- The digest that is the fingerprint of a candidate under a view, computed from the characters of
    the document. -/
def documentDigest (v : PollView) (c : ReviewCandidate) : List Char :=
  (Sha256.digest ((Json.array [v.toJson, c.stableJson]).writeChars.flatMap
    String.utf8EncodeChar)).flatMap Sha256.wordHex

theorem fingerprint_eq (v : PollView) (c : ReviewCandidate) :
    fingerprint v c = .ofList (documentDigest v c) := by
  rw [fingerprint, fingerprintText, Json.write, Sha256.hex, toUTF8_ofList]
  rfl

theorem fingerprint_ne {v w : PollView} {c d : ReviewCandidate}
    (h : documentDigest v c ≠ documentDigest w d) : fingerprint v c ≠ fingerprint w d := by
  rw [fingerprint_eq, fingerprint_eq]
  exact fun he => h (String.ofList_injective he)

end SpacedReview
