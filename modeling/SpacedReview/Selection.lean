import SpacedReview.Catalog.Phrasing
import SpacedReview.Decimal.Binary64

/-!
# Choosing a phrasing

Of a concept's phrasings only those can be shown that are neither retired nor the one to be
avoided. Among them the learner's preferred phrasing wins; otherwise the one seen least, or, if
the options ask for it, one drawn at random. `select` threads the state of the random source
through, and consults it on the last path only.

## Main definitions

- `showable` — the phrasings that can be shown, in the given order
- `leastSeen?` — the first of the least seen
- `select` — the choice and its reason
-/

namespace SpacedReview

/-- Why a phrasing was chosen. -/
inductive SelectionReason where
  | canonical
  | leastSeen
  | random
  /-- No phrasing can be shown. -/
  | none
deriving Repr, DecidableEq, Inhabited

namespace SelectionReason

/-- Every reason. -/
def all : List SelectionReason := [canonical, leastSeen, random, none]

/-- The name in documents. -/
def name : SelectionReason → String
  | canonical => "canonical"
  | leastSeen => "leastSeen"
  | random => "random"
  | none => "none"

/-- The name for readers. -/
def text : SelectionReason → String
  | canonical => "canonical"
  | leastSeen => "least-seen"
  | random => "random"
  | none => "none"

end SelectionReason

/-- What the choice takes into account. -/
structure SelectionOptions where
  /-- The preferred phrasing. -/
  canonicalId : Option String
  /-- The phrasing that must not be chosen. -/
  excludeId : Option String
  preferLeastSeen : Bool
deriving Repr, DecidableEq

/-- No preference, nothing excluded, the least seen first. -/
def SelectionOptions.standard : SelectionOptions :=
  { canonicalId := none, excludeId := none, preferLeastSeen := true }

instance : Inhabited SelectionOptions := ⟨.standard⟩

/-- The chosen phrasing with its place in the given list, and the reason. -/
structure Selection where
  choice : Option (Phrasing × Nat)
  reason : SelectionReason
deriving DecidableEq

/-- The chosen phrasing. -/
def Selection.phrasing? (s : Selection) : Option Phrasing :=
  s.choice.map (·.1)

/-- The phrasing can be shown: it is not retired and not the excluded one. -/
def Phrasing.isShowable (excluded : Option String) (p : Phrasing) : Bool :=
  !p.isRetired && excluded ≠ some p.id

/-- The phrasings that can be shown, in the given order. -/
def showable (excluded : Option String) (ps : List Phrasing) : List Phrasing :=
  ps.filter (·.isShowable excluded)

/-- How much a phrasing was seen: attempts, then the millisecond of the last attempt with zero
    for none, then the millisecond of its creation. -/
def Phrasing.exposure (p : Phrasing) : Nat × Int × Int :=
  (p.attemptCount.toNat, (p.lastAttemptedAt.map Instant.millis).getD 0, p.createdAt.millis)

/-- Seen less than another phrasing. -/
def Phrasing.SeenLess (p q : Phrasing) : Prop :=
  let a := p.exposure
  let b := q.exposure
  a.1 < b.1 ∨ (a.1 = b.1 ∧ (a.2.1 < b.2.1 ∨ (a.2.1 = b.2.1 ∧ a.2.2 < b.2.2)))

instance (p q : Phrasing) : Decidable (p.SeenLess q) :=
  inferInstanceAs (Decidable (_ ∨ _ ∧ (_ ∨ _ ∧ _)))

/-- The first phrasing that none is seen less than. -/
def leastSeen? : List (Phrasing × Nat) → Option (Phrasing × Nat)
  | [] => none
  | p :: ps => some (ps.foldl (fun best q => if q.1.SeenLess best.1 then q else best) p)

/-- The place in a list of `n` that a random number between 0 and 1 stands for. Numbers outside
    that range are moved into it, and what is not a number counts as 0. From zero on the cast to a
    word rounds down. -/
def randomPlace (x : Float) (n : Nat) : Nat :=
  min (Binary64.larger (x * Float.ofNat n) 0.0).toUInt64.toNat (n - 1)

/-- Chooses a phrasing. The random source is a function that draws a number from a state. -/
def select {σ : Type} (draw : σ → Float × σ) (source : σ) (options : SelectionOptions)
    (ps : List Phrasing) : Selection × σ :=
  let able := ps.zipIdx.filter fun p => p.1.isShowable options.excludeId
  match able with
  | [] => (⟨none, .none⟩, source)
  | _ =>
    match able.find? fun p => some p.1.id = options.canonicalId with
    | some p => (⟨some p, .canonical⟩, source)
    | none =>
      if options.preferLeastSeen then (⟨leastSeen? able, .leastSeen⟩, source)
      else
        let (x, source) := draw source
        (⟨able[randomPlace x able.length]?, .random⟩, source)

/-- Chooses a phrasing where no random source is wanted: the preferred one or the least seen. -/
def selectPreferred (canonicalId : Option String) (ps : List Phrasing) : Selection :=
  (select (fun _ => (0.0, ())) () { SelectionOptions.standard with canonicalId } ps).1

end SpacedReview
