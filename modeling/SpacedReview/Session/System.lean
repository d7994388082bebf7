import SpacedReview.Review.Backend
import SpacedReview.Session.Loop

/-!
# A running session

A `RunningSession` is the whole of a session at work: its loop, its poller, the writes that are on
their way, the review queue behind them, and two clocks, one that counts milliseconds for timers
and one that tells the date. Its parts act one at a time but in any order: `RunningSession.act?` is
the effect of an action, or nothing where the action cannot happen. The review queue answers a
fetch, and takes an answer, in one action.

## Main definitions

- `Write` — an answer on its way into the review queue
- `RunningSession` — the state of the whole
- `SessionAction`, `RunningSession.act?` — what can happen
- `RunningSession.acts?` — a run of the whole
-/

namespace SpacedReview

/-- An answer on its way into the review queue. -/
structure Write where
  request : SubmitRequest
  /-- The date that the queue is given with the answer. -/
  date : Instant
  /-- The result, once the queue has been asked. -/
  result : Option (Except String SubmitOutcome)

/-- The result of a write as the loop receives it. -/
def Write.result? (w : Write) : Option CommitResult :=
  w.result.map fun r => ⟨w.request.conceptId, w.request.phrasingId, r⟩

/-- The message of a failed submission as a session reports it. A submission that could not be
    scheduled is reported as the end of the task that ran it. -/
def SubmitError.report : SubmitError → String
  | review e => e.message
  | schedule e => "task <n> panicked with message \"" ++ e.message ++ "\""

structure RunningSession (σ : Type) where
  setup : SessionSetup
  backend : ReviewBackend σ
  /-- What the review queue holds. -/
  store : σ
  /-- Milliseconds since the start. -/
  now : Nat
  /-- The date and time of day. -/
  date : Instant
  loop : SessionLoop
  poller : Poller
  /-- Answers on their way into the review queue, oldest first. -/
  writes : List Write
  /-- The notices so far, oldest first. -/
  notices : List SessionNotice
  /-- The views that were fetched under so far, oldest first. -/
  fetches : List PollView
  /-- The date at which the last fetch began. -/
  fetchDate : Instant

namespace RunningSession

/-- The updates that can be on their way to the loop at one time. -/
def updateCapacity : Nat := 8

/-- A session over a review queue at its start. -/
def startOn {σ : Type} (setup : SessionSetup) (backend : ReviewBackend σ) (store : σ)
    (date : Instant) (pollInterval : Nat) : RunningSession σ where
  setup := setup
  backend := backend
  store := store
  now := 0
  date := date
  loop := SessionLoop.start.arm setup 0
  poller := .start pollInterval updateCapacity 0
  writes := []
  notices := []
  fetches := []
  fetchDate := date

/-- A session over a store at its start. -/
def start {σ : Type} [ReviewStore σ] (setup : SessionSetup) (engine : Engine) (store : σ)
    (date : Instant) (pollInterval : Nat) : RunningSession σ :=
  startOn setup (.service engine) store date pollInterval

end RunningSession

/-- What can happen in a running session. -/
inductive SessionAction (σ : Type) where
  | pass (ms : Nat)
  | setDate (date : Instant)
  /-- What the review queue holds is changed from outside. -/
  | edit (store : σ)
  | startFetch
  /-- The poller begins a fetch for a new view before it has looked at its ticker. -/
  | startViewFetch
  | answerFetch
  | failFetch
  /-- The answer arrives at the poller. -/
  | finishFetch
  /-- The poller tries again to send an update. -/
  | resend
  | receive
  | command (c : SessionCommand)
  /-- The task of a write looks at the date. -/
  | dateWrite (i : Nat)
  /-- A write reaches the review queue; the name is for its interaction. -/
  | write (i : Nat) (interactionId : String)
  /-- A write fails without reaching the review queue. -/
  | failWrite (i : Nat) (message : String)
  /-- The loop handles the result of a write. -/
  | written (i : Nat)
  /-- The loop gives up waiting. -/
  | timeOut

namespace RunningSession

variable {σ : Type}

/-- The effects of the loop take place. A view that has changed is published to the poller. -/
def perform (s : RunningSession σ) (r : SessionLoop × List SessionEffect) : RunningSession σ :=
  let loop := r.1.arm s.setup s.now
  { s with
    loop
    poller := if loop.view = s.loop.view then s.poller else s.poller.publish loop.view
    writes := s.writes ++ r.2.filterMap fun
      | .write q => some ⟨q, s.date, none⟩
      | _ => none
    notices := s.notices ++ r.2.filterMap fun
      | .notify n => some n
      | _ => none }

def handle (s : RunningSession σ) (m : SessionMessage) : RunningSession σ :=
  s.perform (s.loop.step s.setup m)

/-- The outcome of a fetch that the review queue answers now. -/
def outcome (s : RunningSession σ) (v : PollView) : FetchOutcome :=
  match s.backend.next s.store s.fetchDate v.putOff with
  | .ok c => some c
  | .error _ => none

/-- The session after a write has been given its result. -/
def setResult (s : RunningSession σ) (i : Nat) (result : Except String SubmitOutcome) :
    RunningSession σ :=
  { s with writes := s.writes.modify i fun w => { w with result := some result } }

/-- The effect of an action, where it can happen. -/
def act? (s : RunningSession σ) : SessionAction σ → Option (RunningSession σ)
  | .pass ms => some { s with now := s.now + ms }
  | .setDate date => some { s with date }
  | .edit store => some { s with store }
  | .startFetch =>
    if s.poller.wantsFetch s.now then
      some { s with
        poller := s.poller.startFetch s.now, fetches := s.fetches ++ [s.poller.view],
        fetchDate := s.date }
    else none
  | .startViewFetch =>
    if s.poller.seesNewView then
      some { s with
        poller := s.poller.startViewFetch, fetches := s.fetches ++ [s.poller.view],
        fetchDate := s.date }
    else none
  | .answerFetch =>
    match s.poller.stage with
    | .fetching v => some { s with poller := s.poller.answerFetch (s.outcome v) }
    | _ => none
  | .failFetch =>
    match s.poller.stage with
    | .fetching _ => some { s with poller := s.poller.answerFetch none }
    | _ => none
  | .finishFetch =>
    match s.poller.stage with
    | .answered _ _ => some { s with poller := s.poller.finishFetch }
    | _ => none
  | .resend =>
    match s.poller.stage with
    | .sending _ => some { s with poller := s.poller.resend }
    | _ => none
  | .receive =>
    match s.poller.channel with
    | [] => none
    | u :: rest => some ({ s with poller := { s.poller with channel := rest } }.handle (.update u))
  | .command c => some (s.handle (.command c))
  | .dateWrite i =>
    match s.writes[i]? with
    | some ⟨_, _, none⟩ =>
      some { s with writes := s.writes.modify i fun w => { w with date := s.date } }
    | _ => none
  | .write i interactionId =>
    match s.writes[i]? with
    | some ⟨request, date, none⟩ =>
      match s.backend.submit s.store request date interactionId with
      | (store, .ok outcome) => some ({ s with store }.setResult i (.ok outcome))
      | (store, .error e) => some ({ s with store }.setResult i (.error e.report))
    | _ => none
  | .failWrite i message =>
    match s.writes[i]? with
    | some ⟨_, _, none⟩ => some (s.setResult i (.error message))
    | _ => none
  | .written i =>
    match s.writes[i]?.bind Write.result? with
    | some r => some ({ s with writes := s.writes.eraseIdx i }.handle (.written r))
    | none => none
  | .timeOut =>
    match s.loop.deadline with
    | some deadline =>
      if deadline ≤ s.now then
        let s := s.handle .watchdog
        some { s with poller := s.poller.stop.close }
      else none
    | none => none

/-- The session after an action, or as it is where the action cannot happen. -/
def act (s : RunningSession σ) (a : SessionAction σ) : RunningSession σ :=
  (s.act? a).getD s

/-- The effect of some actions one after the other, where they can all happen. -/
def acts? (s : RunningSession σ) (as : List (SessionAction σ)) : Option (RunningSession σ) :=
  as.foldlM act? s

end RunningSession

end SpacedReview
