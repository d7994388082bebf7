import SpacedReview.Retention.MemoryState

/-!
# Concepts

A `Concept` is what a learner wants to keep in mind. It carries the memory of its reviews and may
point at the phrasing that the learner prefers to be asked.
-/

namespace SpacedReview

/-- A piece of knowledge with its own schedule. -/
structure Concept where
  id : String
  title : String
  description : Option String
  memory : MemoryState
  /-- The phrasing to ask whenever it can be shown. -/
  canonicalPhrasing : Option String
  createdAt : Instant
  updatedAt : Instant
deriving DecidableEq

namespace Concept

/-- A concept without a description or a preferred phrasing. -/
def create (id title : String) (memory : MemoryState) (now : Instant) : Concept :=
  { id, title, description := none, memory, canonicalPhrasing := none,
    createdAt := now, updatedAt := now }

/-- The concept was never reviewed. -/
def isNew (c : Concept) : Bool :=
  c.memory.isNew

/-- The concept is due from the instant of its next review on. -/
def isDue (c : Concept) (now : Instant) : Bool :=
  c.memory.isDue now

end Concept

end SpacedReview
