import SpacedReview.Proofs.Session.Release
import SpacedReview.Proofs.Time.Instants

/-!
# Answers are committed once

A command names no question, and writes end in any order. `RunningSession.ledger` keeps book of a
run all the same: an answer is entered beside its write, which carries it to the review queue, and
struck out when the loop has handled the result of the write. With distinct locks, the review queue
is called at most once for every question that was put on show, with the answer that took its lock,
and every such answer has reached the queue, has failed on its way, or is still on its way.

## Main definitions

- `RunningSession.submits`, `RunningSession.skips` — the answers and the skips of a run
- `RunningSession.ledger` — what has become of the answers of a run

## Main statements

- `RunningSession.committed_once` — every answer is committed once and reported as it ended
-/

namespace SpacedReview

/-- An answer of the learner and the question that it is given to. -/
structure Answered where
  question : Question
  request : SubmitRequest
deriving DecidableEq

/-- The notice is about the end of a write. -/
def SessionNotice.isOfWrite : SessionNotice → Bool
  | committed _ _ _ | submitFailed _ _ _ => true
  | timedOut | exhausted _ => false

/-- The notices of a write that has ended, given the phrasing on show. -/
def Write.notices (w : Write) (shown : Option String) :
    Except String SubmitOutcome → List SessionNotice
  | .error message => [.submitFailed w.request.conceptId w.request.phrasingId message]
  | .ok outcome =>
    if shown = some w.request.phrasingId then
      [.committed w.request.conceptId w.request.phrasingId outcome]
    else []

namespace RunningSession

variable {σ : Type} {s : RunningSession σ}

/-- The answer that the learner gives with an action, and the question whose lock it takes. -/
def submitSeen (s : RunningSession σ) : SessionAction σ → List Answered
  | .command (.submit answer isCorrect elapsedMs) =>
    (s.loop.state.unanswered?.map fun q =>
      ⟨q, SessionLoop.answerTo s.setup q answer isCorrect elapsedMs⟩).toList
  | _ => []

/-- The question that the learner skips with an action. -/
def skipSeen (s : RunningSession σ) : SessionAction σ → List Question
  | .command .skip => s.loop.state.unanswered?.toList
  | _ => []

def submits (s : RunningSession σ) (as : List (SessionAction σ)) : List Answered :=
  s.observed submitSeen as

def skips (s : RunningSession σ) (as : List (SessionAction σ)) : List Question :=
  s.observed skipSeen as

/-- What has become of the learner's answers. -/
structure Ledger where
  /-- The answers whose writes have not ended, in the order of the writes. -/
  unsettled : List Answered
  /-- The answers that the review queue was called with. -/
  calls : List Answered
  /-- The answers that failed without reaching the review queue. -/
  failures : List Answered

namespace Ledger

def empty : Ledger :=
  ⟨[], [], []⟩

/-- What a write carries, and the question that is entered for it. -/
def entry (l : Ledger) (ws : List Write) (i : Nat) : List Answered :=
  (l.unsettled[i]?.bind fun a => ws[i]?.map fun w => ⟨a.question, w.request⟩).toList

/-- The ledger after an action. -/
def next (l : Ledger) (s : RunningSession σ) : SessionAction σ → Ledger
  | .command c => { l with unsettled := l.unsettled ++ s.submitSeen (.command c) }
  | .write i _ => { l with calls := l.calls ++ l.entry s.writes i }
  | .failWrite i _ => { l with failures := l.failures ++ l.entry s.writes i }
  | .written i => { l with unsettled := l.unsettled.eraseIdx i }
  | _ => l

/-- Of the answers beside some writes, those whose writes have no result yet. -/
def waiting (answers : List Answered) (ws : List Write) : List Answered :=
  ((answers.zip ws).filter fun p => p.2.result.isNone).map Prod.fst

end Ledger

/-- The ledger of a run that begins with a ledger. -/
def ledgerFrom : RunningSession σ → Ledger → List (SessionAction σ) → Ledger
  | _, l, [] => l
  | s, l, a :: as => (s.act a).ledgerFrom (l.next s a) as

/-- The ledger of a run. -/
def ledger (s : RunningSession σ) (as : List (SessionAction σ)) : Ledger :=
  s.ledgerFrom .empty as

theorem ledgerFrom_concat {l : Ledger} {as : List (SessionAction σ)} {t : RunningSession σ}
    (h : s.acts? as = some t) (a : SessionAction σ) :
    s.ledgerFrom l (as ++ [a]) = (s.ledgerFrom l as).next t a := by
  induction as generalizing s l with
  | nil =>
    obtain rfl := Option.some.inj h
    rfl
  | cons b as ih =>
    obtain ⟨u, hu, has⟩ := Option.bind_eq_some_iff.1 h
    have hact : s.act b = u := act_of_act? hu
    show (s.act b).ledgerFrom (l.next s b) (as ++ [a]) =
      ((s.act b).ledgerFrom (l.next s b) as).next t a
    rw [hact]
    exact ih has

theorem ledger_concat {as : List (SessionAction σ)} {t : RunningSession σ}
    (h : s.acts? as = some t) (a : SessionAction σ) :
    s.ledger (as ++ [a]) = (s.ledger as).next t a :=
  ledgerFrom_concat h a

/-! ## Keeping book -/

theorem requests_submitSeen (s : RunningSession σ) (c : SessionCommand) :
    (s.submitSeen (.command c)).map Answered.request =
      (s.loop.answer? s.setup (.command c)).toList := by
  cases c with
  | submit answer isCorrect elapsedMs =>
    unfold submitSeen SessionLoop.answer?
    cases s.loop.state.unanswered? <;> rfl
  | skip => rfl

namespace Ledger

theorem waiting_append {before after : List Answered} {earlier later : List Write}
    (h : before.length = earlier.length) :
    waiting (before ++ after) (earlier ++ later) =
      waiting before earlier ++ waiting after later := by
  rw [waiting, List.zip_append h, List.filter_append, List.map_append]
  rfl

theorem waiting_cons (a : Answered) (w : Write) (answers : List Answered) (ws : List Write) :
    waiting (a :: answers) (w :: ws) =
      (if w.result.isNone then [a] else []) ++ waiting answers ws := by
  cases hw : w.result <;> simp [waiting, hw]

/-- The ledger agrees with the writes on their way, and every answer is in it once. -/
structure Tallies (l : Ledger) (ws : List Write) (given : List Answered) : Prop where
  requests_eq : l.unsettled.map Answered.request = ws.map Write.request
  perm : given.Perm (l.calls ++ l.failures ++ waiting l.unsettled ws)

theorem exists_entry {l : Ledger} {earlier later : List Write} {w : Write}
    (h : l.unsettled.map Answered.request = (earlier ++ w :: later).map Write.request) :
    ∃ before a after, l.unsettled = before ++ a :: after ∧ before.length = earlier.length ∧
      a.request = w.request ∧ l.entry (earlier ++ w :: later) earlier.length = [a] := by
  rw [List.map_append, List.map_cons, List.map_eq_append_iff] at h
  obtain ⟨before, rest, he, hbefore, hrest⟩ := h
  obtain ⟨a, after, rfl, ha, -⟩ := List.map_eq_cons_iff.1 hrest
  have hlen : before.length = earlier.length := by simpa using congrArg List.length hbefore
  refine ⟨before, a, after, he, hlen, ha, ?_⟩
  rw [entry, he, ← hlen]
  simp [hlen, ← ha]

theorem Tallies.enter {l : Ledger} {ws : List Write} {given : List Answered}
    (h : l.Tallies ws given) {answers : List Answered} {new : List Write}
    (hreq : answers.map Answered.request = new.map Write.request)
    (hopen : ∀ w ∈ new, w.result = none) :
    Tallies { l with unsettled := l.unsettled ++ answers } (ws ++ new) (given ++ answers) := by
  have hlen : l.unsettled.length = ws.length := by
    simpa using congrArg List.length h.requests_eq
  have hall : waiting answers new = answers := by
    rw [waiting, List.filter_eq_self.2]
    · exact List.map_fst_zip (Nat.le_of_eq (by simpa using congrArg List.length hreq))
    · intro p hp
      simp [hopen p.2 (List.of_mem_zip hp).2]
  refine ⟨by rw [List.map_append, List.map_append, h.requests_eq, hreq], ?_⟩
  rw [waiting_append hlen, hall, ← List.append_assoc]
  exact h.perm.append_right _

/-- While a write waits for its attempt, so does the answer beside it. -/
theorem Tallies.redate {l : Ledger} {earlier later : List Write} {w : Write}
    {given : List Answered} (h : l.Tallies (earlier ++ w :: later) given) (date : Instant) :
    l.Tallies (earlier ++ { w with date } :: later) given := by
  obtain ⟨before, a, after, he, hlen, -, -⟩ := exists_entry h.requests_eq
  have hperm := h.perm
  refine ⟨by simpa using h.requests_eq, ?_⟩
  rw [he, waiting_append hlen, waiting_cons] at hperm ⊢
  exact hperm

/-- An attempt takes the answer beside its write from those that wait. -/
theorem Tallies.attempt {l : Ledger} {earlier later : List Write} {w : Write}
    {given : List Answered} (h : l.Tallies (earlier ++ w :: later) given) (hw : w.result = none)
    (result : Except String SubmitOutcome) :
    (l.unsettled.map Answered.request =
      (earlier ++ { w with result := some result } :: later).map Write.request) ∧
    given.Perm (l.calls ++ l.failures ++ l.entry (earlier ++ w :: later) earlier.length ++
      waiting l.unsettled (earlier ++ { w with result := some result } :: later)) := by
  obtain ⟨before, a, after, he, hlen, -, hentry⟩ := exists_entry h.requests_eq
  have hperm := h.perm
  refine ⟨by simpa using h.requests_eq, ?_⟩
  rw [he, waiting_append hlen, waiting_cons, hw] at hperm
  rw [hentry, he, waiting_append hlen, waiting_cons]
  refine hperm.trans ?_
  -- The answer leaves its place among those that wait.
  have hmiddle : (waiting before earlier ++ a :: waiting after later).Perm
      (a :: (waiting before earlier ++ waiting after later)) := List.perm_middle
  simpa using (hmiddle.append_left l.failures).append_left l.calls

/-- The end of a write strikes out the answer beside it, which had its attempt. -/
theorem Tallies.settle {l : Ledger} {earlier later : List Write} {w : Write}
    {given : List Answered} (h : l.Tallies (earlier ++ w :: later) given)
    {result : Except String SubmitOutcome} (hw : w.result = some result) :
    Tallies { l with unsettled := l.unsettled.eraseIdx earlier.length } (earlier ++ later)
      given := by
  obtain ⟨before, a, after, he, hlen, ha, -⟩ := exists_entry h.requests_eq
  have hperm := h.perm
  have hreq := h.requests_eq
  have herase : (before ++ a :: after).eraseIdx earlier.length = before ++ after := by
    rw [← hlen, List.eraseIdx_append_of_length_le (Nat.le_refl _), Nat.sub_self,
      List.eraseIdx_cons_zero]
  rw [he, List.map_append, List.map_append, List.map_cons, List.map_cons, ha] at hreq
  rw [he, waiting_append hlen, waiting_cons, hw] at hperm
  obtain ⟨hbefore, hafter⟩ := List.append_inj hreq (by simpa using hlen)
  refine ⟨?_, ?_⟩
  · rw [he, herase, List.map_append, List.map_append, hbefore, List.tail_eq_of_cons_eq hafter]
  · rw [he, herase, waiting_append hlen]
    exact hperm

theorem Tallies.acted {l : Ledger} {given : List Answered} (h : l.Tallies s.writes given)
    {a : SessionAction σ} {t : RunningSession σ} (ha : s.Acted a t) :
    (l.next s a).Tallies t.writes (given ++ s.submitSeen a) := by
  have hsame : l.Tallies (s.writes ++ []) (given ++ []) := by simpa using h
  cases ha with
  | command c =>
    rw [writes_handle]
    refine h.enter ?_ ?_
    · rw [requests_submitSeen]
      cases s.loop.answer? s.setup (.command c) <;> rfl
    · cases s.loop.answer? s.setup (.command c) <;> simp
  | receive =>
    rw [writes_handle]
    exact hsame
  | timeOut =>
    show l.Tallies (s.handle .watchdog).writes (given ++ [])
    rw [writes_handle]
    exact hsame
  | @dateWrite earlier later w hs hw =>
    rw [hs] at h
    show l.Tallies _ (given ++ [])
    rw [List.append_nil]
    exact h.redate s.date
  | @write earlier later w interactionId hs hw =>
    rw [hs] at h
    obtain ⟨hreq, hperm⟩ := h.attempt hw ((s.backend.submit s.store w.request w.date
      interactionId).2.mapError SubmitError.report)
    refine ⟨hreq, ?_⟩
    show (given ++ []).Perm (l.calls ++ l.entry s.writes earlier.length ++ l.failures ++ _)
    rw [List.append_nil, hs]
    refine hperm.trans (List.Perm.append_right _ ?_)
    rw [List.append_assoc, List.append_assoc]
    exact List.perm_append_comm.append_left _
  | @failWrite earlier later w message hs hw =>
    rw [hs] at h
    obtain ⟨hreq, hperm⟩ := h.attempt hw (.error message)
    refine ⟨hreq, ?_⟩
    show (given ++ []).Perm (l.calls ++ (l.failures ++ l.entry s.writes earlier.length) ++ _)
    rw [List.append_nil, hs, ← List.append_assoc]
    exact hperm
  | @written earlier later w r hs hr =>
    obtain ⟨result, hw, -⟩ := Option.map_eq_some_iff.1 hr
    rw [hs] at h
    rw [writes_handle]
    show Tallies _ (earlier ++ later ++ []) (given ++ [])
    rw [List.append_nil, List.append_nil]
    exact h.settle hw
  | _ =>
    show l.Tallies s.writes (given ++ [])
    rwa [List.append_nil]

end Ledger

/-! ## Runs -/

theorem tallies_of_acts? (hs : s.writes = []) {as : List (SessionAction σ)}
    {t : RunningSession σ} (hrun : s.acts? as = some t) :
    (s.ledger as).Tallies t.writes (s.submits as) := by
  refine acts?_induction (P := fun as t => (s.ledger as).Tallies t.writes (s.submits as)) ?_ ?_ hrun
  · rw [hs]
    exact ⟨rfl, .nil⟩
  · intro as t a u hrun ih ha
    rw [ledger_concat hrun, submits, observed_concat _ hrun]
    exact ih.acted ha

/-- The answers of the attempts that reached the review queue. -/
def reached (attempts : List Attempt) : List SubmitRequest :=
  (attempts.filter fun x => x.interactionId.isSome).map Attempt.request

theorem reached_append (xs ys : List Attempt) : reached (xs ++ ys) = reached xs ++ reached ys := by
  simp [reached]

/-- The calls in the ledger are the attempts that reached the review queue. -/
theorem requests_calls_eq (hs : s.writes = []) {as : List (SessionAction σ)}
    {t : RunningSession σ} (hrun : s.acts? as = some t) :
    (s.ledger as).calls.map Answered.request = reached (s.attempts as) := by
  refine acts?_induction (P := fun as _ =>
    (s.ledger as).calls.map Answered.request = reached (s.attempts as)) rfl ?_ hrun
  intro as t a u hrun ih ha
  have hreq := (tallies_of_acts? hs hrun).requests_eq
  have hattempts : s.attempts (as ++ [a]) = s.attempts as ++ t.attemptSeen a :=
    observed_concat _ hrun a
  rw [ledger_concat hrun, hattempts, reached_append, ← ih]
  cases ha with
  | @write earlier later w interactionId hws hw =>
    rw [hws] at hreq
    obtain ⟨before, x, after, -, -, hx, hentry⟩ := Ledger.exists_entry hreq
    show ((s.ledger as).calls ++ (s.ledger as).entry t.writes earlier.length).map _ = _
    rw [List.map_append, hws, hentry]
    simp [attemptSeen, hws, hx, reached]
  | failWrite message hws hw => simp [attemptSeen, hws, Ledger.next, reached]
  | _ => exact (List.append_nil _).symm

theorem perm_releaseSeen (s : RunningSession σ) (a : SessionAction σ) :
    (s.releaseSeen a).Perm ((s.submitSeen a).map Answered.question ++ s.skipSeen a) := by
  cases a with
  | command c =>
    cases c with
    | submit answer isCorrect elapsedMs =>
      unfold releaseSeen submitSeen skipSeen
      cases s.loop.state.unanswered? <;> exact .refl _
    | skip => exact .refl _
  | _ => exact .refl _

/-- The locks that were given up are those of the answers and of the skips. -/
theorem perm_releases (s : RunningSession σ) (as : List (SessionAction σ)) :
    (s.observed releaseSeen as).Perm ((s.submits as).map Answered.question ++ s.skips as) := by
  induction as generalizing s with
  | nil => exact .nil
  | cons a as ih =>
    have happ := (s.perm_releaseSeen a).append (ih (s.act a))
    refine happ.trans ?_
    show List.Perm _ ((s.submitSeen a ++ (s.act a).submits as).map Answered.question ++
      (s.skipSeen a ++ (s.act a).skips as))
    rw [List.map_append, List.append_assoc, List.append_assoc]
    exact (List.perm_append_comm_assoc _ _ _).append_left _

theorem nodup_locks (hs : s.Released []) (hlock : Function.Injective s.setup.lock)
    {as : List (SessionAction σ)} {t : RunningSession σ} (hrun : s.acts? as = some t) :
    ((s.submits as).map fun a => a.question.lock).Nodup ∧
      ∀ a ∈ s.submits as, ∀ q ∈ s.skips as, a.question.lock ≠ q.lock := by
  have hnodup := (released_of_acts? hs hlock hrun).nodup
  rw [((s.perm_releases as).map Question.lock).nodup_iff, List.map_append, List.map_map,
    List.nodup_append] at hnodup
  obtain ⟨hsubmits, -, hne⟩ := hnodup
  exact ⟨hsubmits, fun a ha q hq => hne _ (List.mem_map_of_mem ha) _ (List.mem_map_of_mem hq)⟩

theorem unanswered?_eq_some_of_lock (hs : s.Sound) {lock : String}
    (hl : s.loop.state.lock = some lock) :
    ∃ q, s.loop.state.unanswered? = some q ∧ q.lock = lock := by
  have hlocked : s.loop.state.isLocked := by simp [SessionState.isLocked, hl]
  obtain ⟨q, hq, he⟩ := hs.loop.consistent.lock_eq hlocked
  rw [hl, Option.some.injEq] at he
  exact ⟨q, SessionState.unanswered?_eq_some.2 ⟨hlocked, hq⟩, he.symm⟩

/-- An answer that was given in a run took the lock of the question that was on show. -/
theorem exists_of_mem_submits (hs : s.Sound) {as : List (SessionAction σ)}
    {t : RunningSession σ} (hrun : s.acts? as = some t) {a : Answered}
    (ha : a ∈ s.submits as) :
    ∃ before answer isCorrect elapsedMs after u,
      as = before ++ .command (.submit answer isCorrect elapsedMs) :: after ∧
      s.acts? before = some u ∧ u.loop.state.question = some a.question ∧
      u.loop.state.lock = some a.question.lock ∧
      a.request = SessionLoop.answerTo s.setup a.question answer isCorrect elapsedMs := by
  obtain ⟨before, b, after, u, rfl, hu, hb⟩ := exists_of_mem_observed hrun ha
  unfold submitSeen at hb
  split at hb
  · rename_i answer isCorrect elapsedMs
    obtain ⟨q, hq, rfl⟩ := Option.map_eq_some_iff.1 (Option.mem_toList.1 hb)
    obtain ⟨hl, hquestion⟩ := SessionState.unanswered?_eq_some.1 hq
    obtain ⟨q', hq', hlock⟩ := (sound_of_acts? hs hu).loop.consistent.lock_eq hl
    obtain rfl := Option.some.inj (hquestion.symm.trans hq')
    exact ⟨before, answer, isCorrect, elapsedMs, after, u, rfl, hu, hquestion, hlock,
      by rw [setup_of_acts? hu]⟩
  · simp at hb

/-- The notices about writes are those of the write that an action ends. -/
theorem exists_news {a : SessionAction σ} {t : RunningSession σ} (ha : s.Acted a t) :
    ∃ news, t.notices = s.notices ++ news ∧
      (∀ i w result, a = .written i → s.writes[i]? = some w → w.result = some result →
        news = w.notices s.loop.state.phrasingId? result) ∧
      ((∀ i, a ≠ .written i) → ∀ n ∈ news, n.isOfWrite = false) := by
  refine ⟨_, ha.notices_eq, ?_, ?_⟩
  · rintro i w result rfl hw hresult
    have hm : s.message? (.written i) =
        some (.written ⟨w.request.conceptId, w.request.phrasingId, result⟩) := by
      simp [message?, hw, Write.result?, hresult]
    rw [hm]
    cases result with
    | error message => exact SessionLoop.noticesFor_written_error rfl
    | ok outcome => exact SessionLoop.noticesFor_written_ok rfl
  · intro hne n hn
    cases a with
    | receive =>
      cases hu : s.poller.channel.head? with
      | none => simp [message?, hu] at hn
      | some u =>
        simp only [message?, hu, Option.map_some] at hn
        obtain ⟨-, id, -, rfl⟩ := SessionLoop.mem_noticesFor_update.1 hn
        rfl
    | command c => simp [message?, SessionLoop.noticesFor_command] at hn
    | written i => exact absurd rfl (hne i)
    | timeOut =>
      simp only [message?, SessionLoop.noticesFor_watchdog, List.mem_singleton] at hn
      rw [hn]
      rfl
    | _ => simp [message?] at hn

/-- In every run of a session with distinct locks, the review queue is called at most once for every
    lock, with the answer that took the lock from the question that held it, and for no lock that
    was given up by a skip. Every answer that was given has reached the queue once, has failed
    without reaching it, or waits for its attempt. A command that finds no lock changes nothing. The
    end of a write is reported as it ended, a success only if its phrasing is still on show, and
    nothing else is. -/
theorem committed_once (setup : SessionSetup) (hlock : Function.Injective setup.lock)
    (backend : ReviewBackend σ) (store : σ) (date : Instant) (pollInterval : Nat)
    {as : List (SessionAction σ)} {s : RunningSession σ}
    (hrun : (startOn setup backend store date pollInterval).acts? as = some s) :
    let start := startOn setup backend store date pollInterval
    let ledger := start.ledger as
    (ledger.calls.map fun c => c.question.lock).Nodup ∧
    ledger.calls.map Answered.request = reached (start.attempts as) ∧
    (∀ c ∈ ledger.calls, ∃ before answer isCorrect elapsedMs after t,
      as = before ++ .command (.submit answer isCorrect elapsedMs) :: after ∧
      start.acts? before = some t ∧ t.loop.state.question = some c.question ∧
      t.loop.state.lock = some c.question.lock ∧
      c.request = SessionLoop.answerTo setup c.question answer isCorrect elapsedMs) ∧
    (∀ before after t lock, as = before ++ .command .skip :: after →
      start.acts? before = some t → t.loop.state.lock = some lock →
      ∀ c ∈ ledger.calls, c.question.lock ≠ lock) ∧
    (start.submits as).Perm
      (ledger.calls ++ ledger.failures ++ Ledger.waiting ledger.unsettled s.writes) ∧
    (s.loop.state.lock = none → ∀ c, s.act? (.command c) = some s) ∧
    ∀ a t, s.act? a = some t → ∃ news, t.notices = s.notices ++ news ∧
      (∀ i w result, a = .written i → s.writes[i]? = some w → w.result = some result →
        news = w.notices s.loop.state.phrasingId? result) ∧
      ((∀ i, a ≠ .written i) → ∀ n ∈ news, n.isOfWrite = false) := by
  intro start ledger
  have hstart : start.Sound := sound_startOn setup backend store date pollInterval
  have hreleased : start.Released [] := released_startOn setup backend store date pollInterval
  have hs : s.Sound := sound_of_acts? hstart hrun
  have hperm := (tallies_of_acts? (s := start) rfl hrun).perm
  obtain ⟨hnodup, hskips⟩ := nodup_locks hreleased hlock hrun
  have hcalls : ∀ c ∈ ledger.calls, c ∈ start.submits as := fun c hc =>
    hperm.mem_iff.2 (List.mem_append_left _ (List.mem_append_left _ hc))
  refine ⟨?_, requests_calls_eq rfl hrun, ?_, ?_, hperm, ?_, ?_⟩
  · -- The calls are among the answers, and these took different locks.
    rw [(hperm.map fun c => c.question.lock).nodup_iff, List.map_append, List.map_append] at hnodup
    exact (List.nodup_append.1 (List.nodup_append.1 hnodup).1).1
  · intro c hc
    exact exists_of_mem_submits hstart hrun (hcalls c hc)
  · rintro before after t lock rfl ht hl c hc
    obtain ⟨q, hq, rfl⟩ := unanswered?_eq_some_of_lock (sound_of_acts? hstart ht) hl
    have hmem : q ∈ start.skips (before ++ .command .skip :: after) :=
      mem_observed_of_mem ht (by simp [skipSeen, hq])
    exact hskips c (hcalls c hc) q hmem
  · intro hl c
    exact act?_command_of_unlocked hs (by simp [SessionState.isLocked, hl]) c
  · intro a t ha
    exact exists_news (acted_of_act? ha)

/-- A session whose review queue asks one question and refuses the answers to it. -/
def refusing : RunningSession Unit :=
  startOn ⟨"session", 1000, fun i => .ofList (.replicate i 'x')⟩
    ⟨fun _ _ _ => .ok (.found (.unreviewed "c")),
      fun _ _ _ _ => ((), .error (.review (.conceptNotFound "c")))⟩
    () .epoch 100

/-- The question comes; the learner answers it twice and then tries to skip it. -/
def insisting : List (SessionAction Unit) :=
  [.startFetch, .answerFetch, .finishFetch, .receive, .command (.submit "answer" true 5),
    .command (.submit "answer" true 5), .command .skip, .write 0 "i"]

theorem committed_once_of_insisting :
    ∃ s t message, refusing.acts? insisting = some s ∧
      (refusing.ledger insisting).calls.length = 1 ∧ (refusing.submits insisting).length = 1 ∧
      s.act? (.command .skip) = some s ∧
      s.act? (.written 0) = some t ∧ t.notices = [.submitFailed "c" "c" message] := by
  have hlock : Function.Injective refusing.setup.lock := by
    intro i j h
    simpa [refusing, startOn] using congrArg String.length h
  obtain ⟨s, hs, hl, hnotices, w, message, hw, hresult, hc, hp⟩ : ∃ s,
      refusing.acts? insisting = some s ∧ s.loop.state.lock = none ∧ s.notices = [] ∧
      ∃ w message, s.writes[0]? = some w ∧ w.result = some (.error message) ∧
        w.request.conceptId = "c" ∧ w.request.phrasingId = "c" :=
    ⟨_, rfl, rfl, rfl, _, _, rfl, rfl, rfl, rfl⟩
  obtain ⟨t, ht⟩ : ∃ t, s.act? (.written 0) = some t := by
    simp [act?, hw, Write.result?, hresult]
  obtain ⟨-, -, -, -, -, hrefused, hreports⟩ :=
    committed_once refusing.setup hlock refusing.backend () refusing.date 100 hs
  obtain ⟨news, hnews, hreport, -⟩ := hreports _ _ ht
  refine ⟨s, t, message, hs, rfl, rfl, hrefused hl .skip, ht, ?_⟩
  rw [hnews, hnotices, hreport 0 w _ rfl hw hresult, Write.notices, hc, hp]
  rfl

end RunningSession

end SpacedReview
