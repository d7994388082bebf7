import SpacedReview.Session.Fingerprint

/-!
# The poller

The poller fetches the next candidate whenever its ticker fires or a new view is published, and
forwards what is news: a result whose fingerprint differs from the last one that was forwarded.
Failed fetches leave no trace. News goes through a channel of limited capacity; when the channel
is full the poller waits for room before it does anything else.

## Main definitions

- `Ticker` — when fetches happen by themselves
- `Poller` — the state of the poller and its channel
- `Poller.startFetch`, `Poller.startViewFetch`, `Poller.answerFetch`, `Poller.finishFetch` — the
  stages of a fetch
- `forward` — what is forwarded of a sequence of outcomes
-/

namespace SpacedReview

/-- A result on its way to the session, with the view that it was fetched under. -/
structure PollUpdate where
  candidate : ReviewCandidate
  view : PollView
deriving DecidableEq

def PollUpdate.fingerprint (u : PollUpdate) : String :=
  SpacedReview.fingerprint u.view u.candidate

/-- The outcome of a fetch: nothing if it failed. -/
abbrev FetchOutcome := Option ReviewCandidate

/-- The update that an outcome is worth, given the fingerprint that was forwarded last. -/
def news? (last : Option String) (v : PollView) : FetchOutcome → Option PollUpdate
  | none => none
  | some c => if last = some (fingerprint v c) then none else some ⟨c, v⟩

theorem news?_eq_some {last : Option String} {v : PollView} {o : FetchOutcome} {u : PollUpdate} :
    news? last v o = some u ↔ o = some u.candidate ∧ u.view = v ∧ last ≠ some u.fingerprint := by
  obtain ⟨c, w⟩ := u
  cases o with
  | none => simp [news?]
  | some d =>
    simp only [news?, Option.ite_none_left_eq_some, Option.some.injEq, PollUpdate.mk.injEq,
      PollUpdate.fingerprint]
    constructor
    · rintro ⟨hn, rfl, rfl⟩
      exact ⟨rfl, rfl, hn⟩
    · rintro ⟨rfl, rfl, hn⟩
      exact ⟨hn, rfl, rfl⟩

/-- The updates that are forwarded of some outcomes, given the fingerprint that was forwarded
    last. -/
def forward (last : Option String) : List (PollView × FetchOutcome) → List PollUpdate
  | [] => []
  | (v, o) :: rest =>
    match news? last v o with
    | none => forward last rest
    | some u => u :: forward (some u.fingerprint) rest

/-- A ticker fires at regular times. Times are counted in milliseconds. -/
structure Ticker where
  period : Nat
  /-- The time at which the ticker fires next. -/
  next : Nat
deriving DecidableEq

namespace Ticker

/-- The ticker is late if it fires more than this after its time. -/
def tolerance : Nat := 5

/-- The ticker after it has fired. One that is late starts a new rhythm. -/
def fire (t : Ticker) (now : Nat) : Ticker :=
  { t with next := (if t.next + tolerance < now then now else t.next) + t.period }

end Ticker

/-- What the poller is doing. -/
inductive PollStage where
  /-- It waits for its ticker or a new view. -/
  | waiting
  /-- It has asked for a candidate under a view. -/
  | fetching (v : PollView)
  /-- The answer is known but has not arrived yet. -/
  | answered (v : PollView) (o : FetchOutcome)
  /-- It waits for room in the channel. -/
  | sending (u : PollUpdate)
  | stopped
deriving DecidableEq

/-- The poller with both of its channels: the views that are published to it, of which only the
    latest counts, and the updates that it sends. -/
structure Poller where
  ticker : Ticker
  stage : PollStage
  /-- The fingerprint that was forwarded last. -/
  lastForwarded : Option String
  /-- The latest view. -/
  view : PollView
  /-- The latest view was published after the last fetch began. -/
  hasNewView : Bool
  /-- Views can still be published. -/
  isWatching : Bool
  /-- Updates that were sent and not received yet, oldest first. -/
  channel : List PollUpdate
  capacity : Nat
  /-- Updates can still be received. -/
  isReceived : Bool

namespace Poller

/-- The poller at the start: its ticker fires at once. Without a period it cannot run. -/
def start (period capacity now : Nat) : Poller :=
  { ticker := ⟨period, now⟩, stage := if period = 0 then .stopped else .waiting,
    lastForwarded := none, view := .first, hasNewView := false, isWatching := true,
    channel := [], capacity, isReceived := true }

def isTicking (p : Poller) (now : Nat) : Bool :=
  p.stage = .waiting && p.ticker.next ≤ now

def seesNewView (p : Poller) : Bool :=
  p.stage = .waiting && p.hasNewView

/-- The poller waits and has a reason to fetch. -/
def wantsFetch (p : Poller) (now : Nat) : Bool :=
  p.isTicking now || p.seesNewView

/-- A fetch begins, under the latest view. -/
def startFetch (p : Poller) (now : Nat) : Poller :=
  { p with
    ticker := if p.ticker.next ≤ now then p.ticker.fire now else p.ticker
    stage := .fetching p.view
    hasNewView := false }

/-- A fetch begins for the latest view, and the ticker is left to itself. -/
def startViewFetch (p : Poller) : Poller :=
  { p with stage := .fetching p.view, hasNewView := false }

/-- The answer to a fetch becomes known. -/
def answerFetch (p : Poller) (o : FetchOutcome) : Poller :=
  match p.stage with
  | .fetching v => { p with stage := .answered v o }
  | _ => p

/-- The poller sends an update, or waits for room, or stops if nobody receives any more. -/
def send (p : Poller) (u : PollUpdate) : Poller :=
  if !p.isReceived then { p with stage := .stopped }
  else if p.channel.length < p.capacity then
    { p with stage := .waiting, channel := p.channel ++ [u] }
  else { p with stage := .sending u }

/-- The answer to a fetch arrives and is forwarded if it is news. -/
def finishFetch (p : Poller) : Poller :=
  match p.stage with
  | .answered v o =>
    match news? p.lastForwarded v o with
    | none => { p with stage := .waiting }
    | some u => { p with lastForwarded := some u.fingerprint }.send u
  | _ => p

def resend (p : Poller) : Poller :=
  match p.stage with
  | .sending u => p.send u
  | _ => p

/-- The poller stops if no view can be published any more and it has nothing left to do. -/
def settle (p : Poller) (now : Nat) : Poller :=
  if p.stage = .waiting ∧ !p.wantsFetch now ∧ !p.isWatching then { p with stage := .stopped }
  else p

def publish (p : Poller) (v : PollView) : Poller :=
  { p with view := v, hasNewView := true }

def stop (p : Poller) : Poller :=
  { p with stage := .stopped }

def close (p : Poller) : Poller :=
  { p with channel := [], isReceived := false }

def closeViews (p : Poller) : Poller :=
  { p with isWatching := false }

def drain (p : Poller) : Poller :=
  { p with channel := [] }

def isStopped (p : Poller) : Bool :=
  p.stage = .stopped

end Poller

end SpacedReview
