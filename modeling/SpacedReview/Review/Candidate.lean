import SpacedReview.Review.Basic

/-!
# The next candidate

The due concepts are gone through in the order in which they are asked, put-off ones last, and the
first of them with a phrasing to show is the candidate.
-/

namespace SpacedReview

/-- Interactions that accompany a candidate. -/
def historyLimit : Nat := 10

/-- The phrasings by age; equally old ones keep their places. -/
def sortByAge (ps : List Phrasing) : List Phrasing :=
  ps.mergeSort fun p q => p.createdAt ≤ q.createdAt

/-- The place of a phrasing among those that can be shown. -/
def phrasingStats? (ps : List Phrasing) (id : String) : Option PhrasingStats :=
  let able := sortByAge (showable none ps)
  (able.findIdx? fun p => p.id = id).map fun i =>
    { index := UInt64.ofNat (i + 1), total := UInt64.ofNat able.length }

/-- The concepts in the order in which they are asked: by priority, and behind all others those
    that are put off. -/
def askingOrder (e : Engine) (now : Instant) (putOff : List String) (cs : List Concept) :
    List Concept :=
  let sorted := e.sortByPriority now cs
  sorted.filter (fun c => c.id ∉ putOff) ++ sorted.filter (fun c => c.id ∈ putOff)

/-- The concept as a candidate, if one of its phrasings can be shown. -/
def candidateFor? {σ : Type} [ReviewStore σ] (e : Engine) (store : σ) (now : Instant)
    (c : Concept) : Except ReviewError (Option FoundCandidate) := do
  let ps ← (ReviewStore.phrasingsOf store c.id).mapError .store
  let selection := selectPreferred c.canonicalPhrasing ps
  match selection.phrasing? with
  | none => return none
  | some p =>
    let history ← (ReviewStore.recent store p.id historyLimit).mapError .store
    return some {
      concept := c, phrasing := p, phrasingStats := phrasingStats? ps p.id,
      selectionReason := selection.reason, retrievability := e.recallOf c now,
      interactionHistory := history }

/-- The first concept of a list that makes a candidate. -/
def firstCandidate {σ : Type} [ReviewStore σ] (e : Engine) (store : σ) (now : Instant) :
    List Concept → Except ReviewError ReviewCandidate
  | [] => return .empty
  | c :: cs => do
    match ← candidateFor? e store now c with
    | some found => return .found found
    | none => firstCandidate e store now cs

/-- The first candidate is one, or there is none. -/
theorem firstCandidate_ne_pending {σ : Type} [ReviewStore σ] (e : Engine) (store : σ)
    (now : Instant) (cs : List Concept) : firstCandidate e store now cs ≠ .ok .pending := by
  induction cs with
  | nil => simp [firstCandidate, pure, Except.pure]
  | cons c cs ih =>
    unfold firstCandidate
    cases candidateFor? e store now c with
    | error _ => simp [bind, Except.bind]
    | ok found =>
      cases found with
      | none => exact ih
      | some found => simp [bind, Except.bind, pure, Except.pure]

/-- The question to ask next. Concepts that are put off are only asked when nothing else is. -/
def nextCandidate {σ : Type} [ReviewStore σ] (e : Engine) (store : σ) (now : Instant)
    (putOff : List String) : Except ReviewError ReviewCandidate := do
  let due ← (ReviewStore.due store now none).mapError .store
  firstCandidate e store now (askingOrder e now putOff due)

end SpacedReview
