import SpacedReview.Session.Poller

/-!
# A poller on a time line

A `PollTimeline` runs a poller without a session. The outcomes of its fetches are given by their
number, and a fetch takes no time. Everything that can happen at an instant happens before time
goes on, and time goes on from one tick to the next.

## Main definitions

- `PollTimeline` — the poller, the time and the fetches so far
- `PollTimeline.settle` — what happens at one instant
- `PollTimeline.advance` — going on in time
-/

namespace SpacedReview

/-- A poller with the time and the outcomes of its fetches. -/
structure PollTimeline where
  poller : Poller
  /-- Milliseconds since the start. -/
  now : Nat
  /-- The outcome of a fetch by its number, counted from zero. -/
  outcome : Nat → FetchOutcome
  /-- The views that were fetched under so far, oldest first. -/
  fetches : List PollView

namespace PollTimeline

def start (period capacity : Nat) (outcome : Nat → FetchOutcome) : PollTimeline :=
  { poller := .start period capacity 0, now := 0, outcome, fetches := [] }

def fetch (t : PollTimeline) : PollTimeline :=
  if t.poller.wantsFetch t.now then
    { t with
      poller := ((t.poller.startFetch t.now).answerFetch (t.outcome t.fetches.length)).finishFetch
      fetches := t.fetches ++ [t.poller.view] }
  else t

/-- The poller sends what it could not send before, and fetches. -/
def round (t : PollTimeline) : PollTimeline :=
  { t with poller := t.poller.resend }.fetch

/-- Everything happens that can happen at this instant. A fetch uses up both of its reasons, so
    one round is enough. -/
def settle (t : PollTimeline) : PollTimeline :=
  let t := t.round
  { t with poller := t.poller.settle t.now }

def act (t : PollTimeline) (f : Poller → Poller) : PollTimeline :=
  { t with poller := f t.poller }

def pass (t : PollTimeline) (ms : Nat) : PollTimeline :=
  { t with now := t.now + ms }

/-- Time goes on to the last instant, from tick to tick. Nothing has happened at the last instant
    yet. -/
def goTo (last : Nat) : Nat → PollTimeline → PollTimeline
  | 0, t => t
  | fuel + 1, t =>
    let t := t.settle
    if t.poller.stage = .waiting ∧ t.poller.ticker.next < last then
      goTo last fuel (t.pass (t.poller.ticker.next - t.now))
    else t.pass (last - t.now)

/-- Some milliseconds go by with all that happens in them. -/
def advance (t : PollTimeline) (ms : Nat) : PollTimeline :=
  (goTo (t.now + ms) (ms + 1) t).settle

end PollTimeline

end SpacedReview
