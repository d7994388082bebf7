import SpacedReview.CommandLine.Arguments
import SpacedReview.Decimal.Rounded
import SpacedReview.Session.System
import SpacedReview.Settings.Basic
import SpacedReview.Store.Database

/-!
# Commands and their reports

What each command does to a store and what it reports. `dueListing` is the list that the command
`due` shows, and `Command.perform` carries out every command that asks nothing back.
-/

namespace SpacedReview

/-- The texts as lines. -/
def lines (texts : List String) : String :=
  texts.foldr (fun text rest => text ++ "\n" ++ rest) ""

/-- A chance in percent without a fraction. -/
def percent (x : Float) : String :=
  Decimal.fixed 0 (x * 100.0) ++ "%"

/-- The engine of a learner's settings. -/
def Settings.engine (s : Settings) : Engine :=
  (Parameters.withRetention s.retention).engine

/-- The due concepts that are listed: the first of the store's due concepts, as many as wanted, in
    the order in which they are asked. -/
def dueListing {σ : Type} [ReviewStore σ] (e : Engine) (store : σ) (now : Instant)
    (limit : Nat) : Except StoreError (List Concept) := do
  return e.sortByPriority now (← ReviewStore.due store now (some limit))

/-- The line of a due concept. -/
def dueLine (e : Engine) (now : Instant) (c : Concept) : String :=
  let chance := e.recallOf c now
  "  " ++ c.id ++ " " ++ c.title ++ " [" ++ c.memory.state.name ++ "] " ++
    if chance < 0.0 then "new" else percent chance

/-- The report of due concepts. -/
def dueReport (e : Engine) (now : Instant) (cs : List Concept) : String :=
  if cs.isEmpty then lines ["Nothing due."]
  else lines ("=== Due Now ===" :: cs.map (dueLine e now))

/-- The report of an overview over the store in a place. -/
def ReviewStats.report (s : ReviewStats) (path : String) : String :=
  let count (what : String) (n : UInt64) := what ++ ": " ++ Numeral.text n.toNat
  lines [
    "=== Recall Statistics ===",
    path,
    "",
    count "Concepts" s.totalConcepts,
    count "Due Now" s.dueNow,
    count "New" s.newConcepts,
    count "Learning" s.learning,
    count "Review" s.review,
    count "Relearning" s.relearning,
    count "Phrasings" s.totalPhrasings,
    count "Answers" s.totalInteractions]

namespace Command

/-- Adds a concept that is due at once. -/
def addConceptTo {σ : Type} [Catalogued σ] (store : σ) (now : Instant) (id title : String)
    (description : Option String) : Except ReviewError (σ × String) := do
  let concept := { Concept.create id title (.fresh now) now with description }
  let store ← (Catalogued.insertConcept store concept).mapError .store
  return (store, lines ["Added concept " ++ id])

/-- Adds a phrasing to a concept that is there. -/
def addPhrasingTo {σ : Type} [ReviewStore σ] [Catalogued σ] (store : σ) (now : Instant)
    (id : String) (p : NewPhrasing) : Except ReviewError (σ × String) := do
  if (← (ReviewStore.concept? store p.conceptId).mapError .store).isNone then
    throw (.conceptNotFound p.conceptId)
  let phrasing := {
    Phrasing.create id p.conceptId p.question p.answer now with
    options := p.options, explanation := p.explanation }
  let store ← (Catalogued.insertPhrasing store phrasing).mapError .store
  let store ←
    if p.isCanonical then
      (Catalogued.setCanonical store p.conceptId (some id) now).mapError .store
    else pure store
  return (store, lines ["Added phrasing " ++ id])

/-- Carries out a command that asks nothing back, with the path of the store and an identifier
    for a new record. -/
def perform {σ : Type} [ReviewStore σ] [Catalogued σ] (settings : Settings) (path : String)
    (store : σ) (now : Instant) (id : String) : Command → Except ReviewError (σ × String)
  | addConcept title description => addConceptTo store now id title description
  | addPhrasing p => addPhrasingTo store now id p
  | archivePhrasing target => do
    let store ← (Catalogued.archivePhrasing store target now).mapError .store
    return (store, lines ["Archived " ++ target])
  | due limit => do
    let cs ← (dueListing settings.engine store now limit).mapError .store
    return (store, dueReport settings.engine now cs)
  | stats => do
    let s ← (ReviewStore.stats store now).mapError .store
    return (store, s.report path)
  | review _ => return (store, "")

end Command

/-- The line of a notice. -/
def SessionNotice.line : SessionNotice → String
  | committed _ _ outcome =>
    "Saved. Next review " ++ outcome.nextReview.minuteText ++ " (" ++ outcome.newState.name ++ ")"
  | submitFailed _ _ message => "Could not save answer: " ++ message
  | timedOut => "Timed out loading the next question."
  | exhausted _ => "Every due concept was skipped; starting over."

/-- A question as it is shown, with the mark that asks for a line. -/
def Question.display (q : Question) : String :=
  let c := q.candidate
  let place := match c.phrasingStats with
    | some s => ["Phrasing " ++ Numeral.text s.index.toNat ++ "/" ++ Numeral.text s.total.toNat]
    | none => []
  let chance := if 0.0 ≤ c.retrievability then "Recall " ++ percent c.retrievability else "New"
  let options := c.phrasing.options.zipIdx.map fun o =>
    "  " ++ Numeral.text (o.2 + 1) ++ ". " ++ o.1
  lines (["", c.concept.title] ++ place ++ [chance, c.phrasing.question] ++ options) ++ "> "

end SpacedReview
