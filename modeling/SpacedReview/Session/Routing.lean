import SpacedReview.Session.State

/-!
# Routing poll results

`SessionState.route` says which events a poll result stands for. A locked session and one that has
given up ignore every result. A skipped concept that comes back is passed over once; when it
comes back again, nothing else is due, and the skipped concepts are forgotten.
-/

namespace SpacedReview

namespace SessionState

/-- The concept was skipped. -/
def isSkipped (s : SessionState) (id : String) : Bool :=
  id ∈ s.skipped

/-- The events of a poll result. The lock is the one of the question to install, if there is
    one. -/
def route (s : SessionState) (candidate : ReviewCandidate) (lock : String) : List SessionEvent :=
  if s.isLocked || s.phase = .error then [.ignoreUpdate]
  else
    match candidate with
    | .pending => [.ignoreUpdate]
    | .empty => if s.phase = .empty then [.ignoreUpdate] else [.loadEmpty]
    | .found c =>
      if !s.isSkipped c.concept.id then [.questionReceived ⟨c, lock⟩]
      else if s.lastAutoSkipped = some c.concept.id then
        [.clearSkipped, .questionReceived ⟨c, lock⟩]
      else [.autoSkip c.concept.id]

end SessionState

namespace SessionEvent

/-- The event installs a question, and so uses a lock. -/
def usesLock : SessionEvent → Bool
  | questionReceived _ => true
  | _ => false

end SessionEvent

end SpacedReview
