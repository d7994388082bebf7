import SpacedReview.Catalog.Concept
import SpacedReview.Catalog.Phrasing

/-!
# Review stores

A store holds concepts, phrasings and the log of interactions. `ReviewStore` is what reviewing
asks of it: look-ups that leave it as it is, and `record`, which writes everything that one
answer changes or nothing at all. `Catalogued` adds the operations that fill a store.
-/

namespace SpacedReview

/-- Why a store operation failed. -/
inductive StoreError where
  /-- No record has the identifier. -/
  | notFound (id : String)
  /-- The database refused the operation, or could not read what it holds. -/
  | database (reason : String)
  /-- The file system refused the operation. -/
  | file (reason : String)
  /-- There is no usual place for a database. -/
  | noPlace
deriving Repr, DecidableEq

namespace StoreError

/-- The text that reports the error. -/
def message : StoreError → String
  | notFound id => "Not found: " ++ id
  | database reason => "Database error: " ++ reason
  | file reason => "IO error: " ++ reason
  | noPlace => "Initialization error: Could not determine project directories"

end StoreError

/-- Everything that one answer writes. -/
structure ReviewPatch where
  conceptId : String
  /-- The memory that replaces the concept's. -/
  memory : MemoryState
  phrasingId : String
  attemptCount : UInt32
  lastAttemptedAt : Instant
  interaction : Interaction
deriving DecidableEq

/-- An overview of a store. -/
structure ReviewStats where
  totalConcepts : UInt64
  dueNow : UInt64
  newConcepts : UInt64
  learning : UInt64
  review : UInt64
  relearning : UInt64
  totalPhrasings : UInt64
  totalInteractions : UInt64
deriving Repr, DecidableEq

/-- What reviewing asks of a store. -/
class ReviewStore (σ : Type) where
  /-- The concept with an identifier. -/
  concept? : σ → String → Except StoreError (Option Concept)
  /-- The due concepts, never reviewed ones first and then by due date, cut to a limit. -/
  due : σ → Instant → Option Nat → Except StoreError (List Concept)
  /-- The phrasings of a concept, retired ones included, oldest first. -/
  phrasingsOf : σ → String → Except StoreError (List Phrasing)
  /-- The phrasing with an identifier. -/
  phrasing? : σ → String → Except StoreError (Option Phrasing)
  /-- The latest interactions with a phrasing, newest first, cut to a limit. -/
  recent : σ → String → Nat → Except StoreError (List Interaction)
  /-- The overview at an instant. -/
  stats : σ → Instant → Except StoreError ReviewStats
  /-- Writes one answer, or fails and writes nothing. -/
  record : σ → ReviewPatch → Except StoreError σ

/-- What filling a store asks of it. -/
class Catalogued (σ : Type) where
  insertConcept : σ → Concept → Except StoreError σ
  insertPhrasing : σ → Phrasing → Except StoreError σ
  /-- Points a concept at its preferred phrasing, or at none. The instant is the wall clock's. -/
  setCanonical : σ → String → Option String → Instant → Except StoreError σ
  /-- Retires a phrasing that is not archived yet. -/
  archivePhrasing : σ → String → Instant → Except StoreError σ

end SpacedReview
