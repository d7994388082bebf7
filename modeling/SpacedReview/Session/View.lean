import SpacedReview.Session.State

/-!
# Poll views

A poll looks for the next question under a `PollView`: the concepts that the learner skipped, and
a generation that goes up with every view the session publishes. A view therefore never comes
back, and a result that was fetched under an older one can be told by its generation.
-/

namespace SpacedReview

/-- What a session has skipped. -/
structure SkipView where
  skipped : IdSet
  lastAutoSkipped : Option String
deriving DecidableEq

namespace SkipView

/-- Nothing was skipped. -/
def empty : SkipView :=
  ⟨.empty, none⟩

/-- What a session state has skipped. -/
def ofState (s : SessionState) : SkipView :=
  ⟨s.skipped, s.lastAutoSkipped⟩

end SkipView

/-- What a poll is fetched under. -/
structure PollView where
  /-- The number of views that were published before. It is counted without a bound; that a word of
      64 bits overflows in the end is left out. -/
  generation : Nat
  skips : SkipView
deriving DecidableEq

namespace PollView

/-- The first view of a session. -/
def first : PollView :=
  ⟨0, .empty⟩

/-- The view after this one. -/
def succeed (v : PollView) (skips : SkipView) : PollView :=
  ⟨v.generation + 1, skips⟩

/-- The concepts that are only asked when nothing else is due. -/
def putOff (v : PollView) : List String :=
  v.skips.skipped.ids

/-- The view to publish when the session has skipped `skips`: the next one if that differs from
    what is published, or in any case if a fresh fetch is wanted. -/
def update (v : PollView) (skips : SkipView) (refetch : Bool) : PollView :=
  if !refetch && v.skips = skips then v else v.succeed skips

theorem update_of_eq {v : PollView} {skips : SkipView} (h : v.skips = skips) :
    v.update skips false = v := by
  simp [update, h]

theorem update_of_ne {v : PollView} {skips : SkipView} (h : v.skips ≠ skips) (refetch : Bool) :
    v.update skips refetch = v.succeed skips := by
  simp [update, h]

/-- The view to publish always shows what the session has skipped. -/
theorem skips_update (v : PollView) (skips : SkipView) (refetch : Bool) :
    (v.update skips refetch).skips = skips := by
  by_cases h : v.skips = skips
  · cases refetch
    · rw [update_of_eq h, h]
    · rfl
  · rw [update_of_ne h]
    rfl

theorem generation_le_update (v : PollView) (skips : SkipView) (refetch : Bool) :
    v.generation ≤ (v.update skips refetch).generation := by
  unfold update
  split
  · exact Nat.le_refl _
  · exact Nat.le_succ _

end PollView

end SpacedReview
