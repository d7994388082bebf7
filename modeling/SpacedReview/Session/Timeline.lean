import SpacedReview.Session.System

/-!
# A session on a time line

A `Timeline` runs a session in one fixed order of its actions. Everything that can happen at an
instant happens before time goes on, in rounds: the poller begins a fetch, the loop handles its
messages, and what was begun ends. Time goes on from one timer to the next. Fetches and writes
can be made to fail, or be held back until they are released; while something is held, time only
goes on in jumps.

## Main definitions

- `Timeline` — the session and the conditions it runs under
- `Timeline.round`, `Timeline.settle` — what happens at one instant
- `Timeline.advance`, `Timeline.waitFor` — going on in time
-/

namespace SpacedReview

/-- A session with the conditions that it runs under. -/
structure Timeline (σ : Type) where
  session : RunningSession σ
  failsPoll : Bool
  failsSubmit : Bool
  holdsPoll : Bool
  holdsSubmit : Bool
  /-- Commands that the loop has not handled yet, oldest first. -/
  commands : List SessionCommand
  /-- The names of interactions in the order in which they are used. -/
  interactionId : Nat → String
  /-- The number of names that were used. -/
  interactionsUsed : Nat

namespace Timeline

/-- A session on a time line on which nothing fails and nothing is held. -/
def start {σ : Type} (session : RunningSession σ) (interactionId : Nat → String) : Timeline σ :=
  { session, failsPoll := false, failsSubmit := false, holdsPoll := false, holdsSubmit := false,
    commands := [], interactionId, interactionsUsed := 0 }

variable {σ : Type}

def act (t : Timeline σ) (a : SessionAction σ) : Timeline σ :=
  { t with session := t.session.act a }

def isHeld (t : Timeline σ) : Bool :=
  t.holdsPoll || t.holdsSubmit

/-- The deadline of the watchdog has passed. -/
def isOverdue (t : Timeline σ) : Bool :=
  match t.session.loop.deadline with
  | some deadline => deadline ≤ t.session.now
  | none => false

/-- The watchdog's deadline has passed, and it comes before the time of the poller's ticker. -/
def watchdogFirst (t : Timeline σ) : Bool :=
  match t.session.loop.deadline with
  | some deadline => deadline ≤ t.session.now && deadline < t.session.poller.ticker.next
  | none => false

def fetch (t : Timeline σ) : Timeline σ :=
  (t.act .startFetch).act (if t.failsPoll then .failFetch else .answerFetch)

/-- The oldest write that has a result. -/
def endedWrite? (t : Timeline σ) : Option Nat :=
  t.session.writes.findIdx? fun w => w.result.isSome

/-- The oldest write that has none. -/
def openWrite? (t : Timeline σ) : Option Nat :=
  t.session.writes.findIdx? fun w => w.result.isNone

/-- The poller's part of a round: it sends what could not be sent before, and begins a fetch if
    it has a reason to. -/
def pollerTurn (t : Timeline σ) : Timeline σ :=
  let t := t.act .resend
  if t.session.poller.wantsFetch t.session.now && !t.watchdogFirst then t.fetch else t

/-- The loop's part of a round: one update, one command, one result, or else the watchdog. -/
def loopTurn (t : Timeline σ) : Timeline σ :=
  if t.isOverdue then t.act .timeOut
  else if !t.session.poller.channel.isEmpty then t.act .receive
  else
    match t.commands with
    | c :: rest => { t with commands := rest }.act (.command c)
    | [] =>
      match t.endedWrite? with
      | some i => t.act (.written i)
      | none => t

/-- The end of a fetch and of a write, unless they are held back. -/
def backendTurn (t : Timeline σ) : Timeline σ :=
  let t := if t.holdsPoll then t else t.act .finishFetch
  if t.holdsSubmit then t
  else
    match t.openWrite? with
    | none => t
    | some i =>
      if t.failsSubmit then
        let id := (t.session.writes[i]?.map fun w => w.request.conceptId).getD ""
        t.act (.failWrite i (ReviewError.conceptNotFound id).message)
      else
        { t with interactionsUsed := t.interactionsUsed + 1 }.act
          (.write i (t.interactionId t.interactionsUsed))

/-- The poller has an answer that may arrive. -/
def isAnswered (t : Timeline σ) : Bool :=
  match t.session.poller.stage with
  | .answered _ _ => !t.holdsPoll
  | _ => false

/-- Nothing can happen before time goes on. -/
def isIdle (t : Timeline σ) : Bool :=
  !t.session.poller.wantsFetch t.session.now && !t.isAnswered && !t.isOverdue &&
    t.session.poller.channel.isEmpty && t.commands.isEmpty && t.endedWrite?.isNone &&
    (t.holdsSubmit || t.openWrite?.isNone)

/-- One round of what can happen at an instant. -/
def round (t : Timeline σ) : Timeline σ :=
  t.pollerTurn.loopTurn.backendTurn

/-- As many rounds as it takes until nothing can happen any more, but no more than a number. -/
def rounds : Nat → Timeline σ → Timeline σ
  | 0, t => t
  | n + 1, t => if t.isIdle then t else rounds n t.round

/-- More rounds than any instant takes: an instant ends when every command and every write was
    answered, and each of them leads to few rounds. -/
def roundLimit (t : Timeline σ) : Nat :=
  100 * (t.commands.length + t.session.writes.length + t.session.poller.channel.length + 2)

/-- Everything happens that can happen at this instant. -/
def settle (t : Timeline σ) : Timeline σ :=
  rounds t.roundLimit t

/-- The time of the next timer after this instant: the poller's ticker while the poller waits for
    it, and the deadline of the watchdog. -/
def nextTimer? (t : Timeline σ) : Option Nat :=
  let s := t.session
  let tick := if s.poller.stage = .waiting then some s.poller.ticker.next else none
  match tick, s.loop.deadline with
  | some a, some b => some (min a b)
  | a, b => a.or b

/-- Time goes on to the last instant, from timer to timer, but stops where the condition holds.
    Nothing has happened at the last instant yet. -/
def goTo (last : Nat) (stop : SessionState → Bool) : Nat → Timeline σ → Timeline σ
  | 0, t => t
  | fuel + 1, t =>
    let t := t.settle
    if stop t.session.loop.state then t
    else
      match t.nextTimer? with
      | some timer =>
        if timer < last then goTo last stop fuel (t.act (.pass (timer - t.session.now)))
        else t.act (.pass (last - t.session.now))
      | none => t.act (.pass (last - t.session.now))

/-- Some milliseconds go by with all that happens in them. While something is held, they go by at
    once. -/
def advance (t : Timeline σ) (ms : Nat) : Timeline σ :=
  if t.isHeld then (t.act (.pass ms)).settle
  else (goTo (t.session.now + ms) (fun _ => false) (ms + 1) t).settle

/-- Time goes on until a condition on the state holds, but no longer than some milliseconds. True
    if the condition came to hold. -/
def waitFor (t : Timeline σ) (condition : SessionState → Bool) (ms : Nat) : Timeline σ × Bool :=
  let t := goTo (t.session.now + ms) condition (ms + 1) t
  (t.settle, condition t.session.loop.state)

/-- A millisecond in which nothing happens goes by, unless something is held. -/
def rest (t : Timeline σ) : Timeline σ :=
  if t.isHeld then t else t.act (.pass 1)

def command (t : Timeline σ) (c : SessionCommand) : Timeline σ :=
  { t with commands := t.commands ++ [c] }.settle

def release (t : Timeline σ) : Timeline σ :=
  { t with holdsPoll := false, holdsSubmit := false }.settle

end Timeline

end SpacedReview
