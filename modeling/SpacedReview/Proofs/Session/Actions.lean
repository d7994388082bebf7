import Mathlib.Data.List.Induction
import SpacedReview.Proofs.Session.LoopRuns
import SpacedReview.Session.System

/-!
# What an action does

Inversion lemmas for the actions of a running session. `RunningSession.Acted` lists what every
action does to a session in which it can happen. Messages of the loop go through
`RunningSession.handle`, whose effect is one turn of the loop, the new view for the poller and the
new write.

## Main definitions

- `RunningSession.Acted` — the effect of an action

## Main statements

- `RunningSession.acted_of_act?` — what `RunningSession.act?` does
- `RunningSession.acts?_append` — a run is a run after a run
-/

namespace SpacedReview

/-! ## The poller -/

namespace Poller

/-- The updates on their way to the loop, those that wait for room included. -/
def inTransit (p : Poller) : List PollUpdate :=
  p.channel ++ match p.stage with
    | .sending u => [u]
    | _ => []

/-- Sending an update loses it if nobody receives, and has it on its way otherwise. -/
theorem send_cases (p : Poller) (u : PollUpdate) :
    (p.isReceived = false ∧ p.send u = { p with stage := .stopped }) ∨
    (p.isReceived ∧ p.send u = { p with stage := .waiting, channel := p.channel ++ [u] }) ∨
    (p.isReceived ∧ p.send u = { p with stage := .sending u }) := by
  unfold send
  cases hr : p.isReceived with
  | false => exact .inl ⟨rfl, by simp⟩
  | true =>
    by_cases hc : p.channel.length < p.capacity
    · exact .inr (.inl ⟨rfl, by simp [hc]⟩)
    · exact .inr (.inr ⟨rfl, by simp [hc]⟩)

theorem inTransit_send {p : Poller} (hr : p.isReceived) (u : PollUpdate) :
    (p.send u).inTransit = p.channel ++ [u] := by
  rcases p.send_cases u with ⟨hf, -⟩ | ⟨-, hs⟩ | ⟨-, hs⟩
  · simp [hr] at hf
  · rw [hs]
    exact List.append_nil _
  · rw [hs]
    rfl

theorem mem_inTransit_send {p : Poller} (hr : p.isReceived) (u : PollUpdate) :
    u ∈ (p.send u).inTransit := by
  rw [inTransit_send hr]
  exact List.mem_append_right _ List.mem_cons_self

end Poller

/-! ## Messages of the loop -/

theorem SessionLoop.filterMap_request_noticesOf (c : ReviewCandidate) (es : List SessionEvent)
    (date : Instant) :
    (es.flatMap (SessionLoop.noticesOf c)).filterMap (fun
      | .write q => some (⟨q, date, none⟩ : Write)
      | _ => none) = [] := by
  rw [List.filterMap_eq_nil_iff]
  intro effect h
  obtain ⟨e, -, he⟩ := List.mem_flatMap.1 h
  unfold noticesOf at he
  split at he
  · split at he
    · obtain rfl := List.mem_singleton.1 he
      rfl
    · simp at he
  · simp at he

namespace RunningSession

variable {σ : Type} {s : RunningSession σ}

theorem writes_handle (s : RunningSession σ) (m : SessionMessage) :
    (s.handle m).writes =
      s.writes ++ ((s.loop.answer? s.setup m).map fun q => ⟨q, s.date, none⟩).toList := by
  show s.writes ++ _ = _
  congr 1
  cases m with
  | update u =>
    show List.filterMap _ (s.loop.onUpdate s.setup u).2 = []
    unfold SessionLoop.onUpdate
    split
    · exact SessionLoop.filterMap_request_noticesOf ..
    · rfl
  | command c =>
    cases c with
    | submit answer isCorrect elapsedMs =>
      rw [SessionLoop.step, SessionLoop.answer?]
      cases hq : s.loop.state.unanswered? with
      | none => rw [SessionLoop.onSubmit_of_none hq]; rfl
      | some q => rw [SessionLoop.onSubmit_of_unanswered hq]; rfl
    | skip =>
      rw [SessionLoop.step]
      cases hq : s.loop.state.unanswered? with
      | none => rw [SessionLoop.onSkip_of_none hq]; rfl
      | some q => rw [SessionLoop.onSkip_of_unanswered hq]; rfl
  | written r =>
    show List.filterMap _ (s.loop.commitNotice r) = []
    unfold SessionLoop.commitNotice
    split
    · split <;> rfl
    · rfl
  | watchdog => rfl

/-- All that a message changes: the loop takes a turn, the poller gets the view if that is new,
    and an answer is on its way if one was given. -/
theorem handle_eq (s : RunningSession σ) (m : SessionMessage) :
    s.handle m = { s with
      loop := s.loop.turn s.setup s.now m
      poller := if (s.loop.turn s.setup s.now m).view = s.loop.view then s.poller
        else s.poller.publish (s.loop.turn s.setup s.now m).view
      writes := s.writes ++
        ((s.loop.answer? s.setup m).map fun q => ⟨q, s.date, none⟩).toList
      notices := (s.handle m).notices } := by
  rw [← writes_handle]
  rfl

/-- A message is nothing to the poller but the view that it may publish. -/
theorem poller_handle (s : RunningSession σ) (m : SessionMessage) :
    (s.handle m).poller = s.poller ∧ (s.handle m).loop.view = s.loop.view ∨
      (s.handle m).poller = s.poller.publish (s.handle m).loop.view := by
  rw [handle_eq]
  by_cases hv : (s.loop.turn s.setup s.now m).view = s.loop.view
  · exact .inl ⟨if_pos hv, hv⟩
  · exact .inr (if_neg hv)

theorem view_poller_handle (h : s.poller.view = s.loop.view) (m : SessionMessage) :
    (s.handle m).poller.view = (s.handle m).loop.view := by
  rcases s.poller_handle m with ⟨hp, hv⟩ | hp
  · rw [hp, hv, h]
  · rw [hp]
    rfl

theorem isReceived_poller_handle (s : RunningSession σ) (m : SessionMessage) :
    (s.handle m).poller.isReceived = s.poller.isReceived := by
  rcases s.poller_handle m with ⟨hp, -⟩ | hp
  · rw [hp]
  · rw [hp]
    rfl

theorem lastForwarded_poller_handle (s : RunningSession σ) (m : SessionMessage) :
    (s.handle m).poller.lastForwarded = s.poller.lastForwarded := by
  rcases s.poller_handle m with ⟨hp, -⟩ | hp
  · rw [hp]
  · rw [hp]
    rfl

theorem inTransit_poller_handle (s : RunningSession σ) (m : SessionMessage) :
    (s.handle m).poller.inTransit = s.poller.inTransit := by
  rcases s.poller_handle m with ⟨hp, -⟩ | hp
  · rw [hp]
  · rw [hp]
    rfl

/-! ## Actions -/

/-- The effect of an action in a session where it can happen. -/
inductive Acted (s : RunningSession σ) : SessionAction σ → RunningSession σ → Prop where
  | pass (ms : Nat) : Acted s (.pass ms) { s with now := s.now + ms }
  | setDate (date : Instant) : Acted s (.setDate date) { s with date }
  | edit (store : σ) : Acted s (.edit store) { s with store }
  | startFetch : s.poller.stage = .waiting → Acted s .startFetch { s with
      poller := s.poller.startFetch s.now, fetches := s.fetches ++ [s.poller.view],
      fetchDate := s.date }
  | startViewFetch : s.poller.stage = .waiting → Acted s .startViewFetch { s with
      poller := s.poller.startViewFetch, fetches := s.fetches ++ [s.poller.view],
      fetchDate := s.date }
  | answerFetch {v : PollView} : s.poller.stage = .fetching v → Acted s .answerFetch { s with
      poller := { s.poller with stage := .answered v (s.outcome v) } }
  | failFetch {v : PollView} : s.poller.stage = .fetching v → Acted s .failFetch { s with
      poller := { s.poller with stage := .answered v none } }
  | suppress {v : PollView} {o : FetchOutcome} : s.poller.stage = .answered v o →
      news? s.poller.lastForwarded v o = none → Acted s .finishFetch { s with
        poller := { s.poller with stage := .waiting } }
  | forward {v : PollView} {o : FetchOutcome} {u : PollUpdate} : s.poller.stage = .answered v o →
      news? s.poller.lastForwarded v o = some u → Acted s .finishFetch { s with
        poller := { s.poller with lastForwarded := some u.fingerprint }.send u }
  | resend {u : PollUpdate} : s.poller.stage = .sending u → Acted s .resend { s with
      poller := s.poller.send u }
  | receive {u : PollUpdate} {rest : List PollUpdate} : s.poller.channel = u :: rest →
      Acted s .receive
        ({ s with poller := { s.poller with channel := rest } }.handle (.update u))
  | command (c : SessionCommand) : Acted s (.command c) (s.handle (.command c))
  | dateWrite {earlier later : List Write} {w : Write} :
      s.writes = earlier ++ w :: later → w.result = none →
      Acted s (.dateWrite earlier.length) { s with
        writes := earlier ++ { w with date := s.date } :: later }
  | write {earlier later : List Write} {w : Write} (interactionId : String) :
      s.writes = earlier ++ w :: later → w.result = none →
      Acted s (.write earlier.length interactionId) { s with
        store := (s.backend.submit s.store w.request w.date interactionId).1
        writes := earlier ++ { w with
          result := some ((s.backend.submit s.store w.request w.date interactionId).2.mapError
            SubmitError.report) } :: later }
  | failWrite {earlier later : List Write} {w : Write} (message : String) :
      s.writes = earlier ++ w :: later → w.result = none →
      Acted s (.failWrite earlier.length message) { s with
        writes := earlier ++ { w with result := some (.error message) } :: later }
  | written {earlier later : List Write} {w : Write} {r : CommitResult} :
      s.writes = earlier ++ w :: later → w.result? = some r →
      Acted s (.written earlier.length)
        ({ s with writes := earlier ++ later }.handle (.written r))
  | timeOut {deadline : Nat} : s.loop.deadline = some deadline → deadline ≤ s.now →
      Acted s .timeOut { s.handle .watchdog with
        poller := (s.handle .watchdog).poller.stop.close }

theorem exists_eq_append_of_getElem? {α : Type} {xs : List α} {i : Nat} {x : α}
    (h : xs[i]? = some x) : ∃ ys zs, xs = ys ++ x :: zs ∧ i = ys.length := by
  obtain ⟨hi, hx⟩ := List.getElem?_eq_some_iff.1 h
  refine ⟨xs.take i, xs.drop (i + 1), ?_, by simp; omega⟩
  rw [← hx, List.getElem_cons_drop, List.take_append_drop]

theorem modify_append_cons {α : Type} (xs ys : List α) (x : α) (f : α → α) :
    (xs ++ x :: ys).modify xs.length f = xs ++ f x :: ys := by
  rw [List.modify_eq_take_cons_drop (by simp)]
  simp

theorem setResult_of_eq_append {earlier later : List Write} {w : Write}
    (h : s.writes = earlier ++ w :: later) (result : Except String SubmitOutcome) :
    s.setResult earlier.length result =
      { s with writes := earlier ++ { w with result := some result } :: later } := by
  rw [setResult, h, modify_append_cons]

theorem acted_of_act? {a : SessionAction σ} {t : RunningSession σ} (h : s.act? a = some t) :
    s.Acted a t := by
  cases a with
  | pass ms =>
    obtain rfl := Option.some.inj h
    exact .pass ms
  | setDate date =>
    obtain rfl := Option.some.inj h
    exact .setDate date
  | edit store =>
    obtain rfl := Option.some.inj h
    exact .edit store
  | startFetch =>
    simp only [act?, Option.ite_none_right_eq_some, Option.some.injEq] at h
    obtain ⟨hw, rfl⟩ := h
    refine .startFetch ?_
    simp only [Poller.wantsFetch, Poller.isTicking, Poller.seesNewView] at hw
    grind
  | startViewFetch =>
    simp only [act?, Option.ite_none_right_eq_some, Option.some.injEq] at h
    obtain ⟨hw, rfl⟩ := h
    refine .startViewFetch ?_
    simp only [Poller.seesNewView] at hw
    grind
  | answerFetch =>
    simp only [act?] at h
    split at h
    · rename_i v hv
      obtain rfl := Option.some.inj h
      simp only [Poller.answerFetch, hv]
      exact .answerFetch hv
    · cases h
  | failFetch =>
    simp only [act?] at h
    split at h
    · rename_i v hv
      obtain rfl := Option.some.inj h
      simp only [Poller.answerFetch, hv]
      exact .failFetch hv
    · cases h
  | finishFetch =>
    simp only [act?] at h
    split at h
    · rename_i v o hv
      obtain rfl := Option.some.inj h
      simp only [Poller.finishFetch, hv]
      cases hn : news? s.poller.lastForwarded v o with
      | none => exact .suppress hv hn
      | some u => exact .forward hv hn
    · cases h
  | resend =>
    simp only [act?] at h
    split at h
    · rename_i u hu
      obtain rfl := Option.some.inj h
      simp only [Poller.resend, hu]
      exact .resend hu
    · cases h
  | receive =>
    simp only [act?] at h
    split at h
    · cases h
    · rename_i u rest hc
      obtain rfl := Option.some.inj h
      exact .receive hc
  | command c =>
    obtain rfl := Option.some.inj h
    exact .command c
  | dateWrite i =>
    simp only [act?] at h
    split at h
    · rename_i request date hi
      obtain ⟨earlier, later, hws, rfl⟩ := exists_eq_append_of_getElem? hi
      obtain rfl := Option.some.inj h
      rw [hws, modify_append_cons]
      exact .dateWrite hws rfl
    · cases h
  | write i interactionId =>
    simp only [act?] at h
    split at h
    · rename_i request date hi
      obtain ⟨earlier, later, hws, rfl⟩ := exists_eq_append_of_getElem? hi
      have hw := Acted.write (s := s) interactionId hws rfl
      split at h
      · rename_i store outcome hsubmit
        obtain rfl := Option.some.inj h
        rw [setResult_of_eq_append (s := { s with store }) hws]
        simpa [hsubmit, Except.mapError] using hw
      · rename_i store e hsubmit
        obtain rfl := Option.some.inj h
        rw [setResult_of_eq_append (s := { s with store }) hws]
        simpa [hsubmit, Except.mapError] using hw
    · cases h
  | failWrite i message =>
    simp only [act?] at h
    split at h
    · rename_i request date hi
      obtain ⟨earlier, later, hws, rfl⟩ := exists_eq_append_of_getElem? hi
      obtain rfl := Option.some.inj h
      rw [setResult_of_eq_append hws]
      exact .failWrite message hws rfl
    · cases h
  | written i =>
    simp only [act?] at h
    split at h
    · rename_i r hr
      obtain ⟨w, hi, hw⟩ := Option.bind_eq_some_iff.1 hr
      obtain ⟨earlier, later, hws, rfl⟩ := exists_eq_append_of_getElem? hi
      obtain rfl := Option.some.inj h
      simp only [hws, List.eraseIdx_append_of_length_le (Nat.le_refl _), Nat.sub_self,
        List.eraseIdx_cons_zero]
      exact .written hws hw
    · cases h
  | timeOut =>
    simp only [act?] at h
    split at h
    · rename_i deadline hd
      simp only [Option.ite_none_right_eq_some, Option.some.injEq] at h
      obtain ⟨hnow, rfl⟩ := h
      exact .timeOut hd hnow
    · cases h

/-! ## Runs -/

theorem acts?_append (s : RunningSession σ) (as bs : List (SessionAction σ)) :
    s.acts? (as ++ bs) = (s.acts? as).bind fun t => t.acts? bs :=
  List.foldlM_append

theorem acts?_cons {t : RunningSession σ} {a : SessionAction σ} (h : s.act? a = some t)
    (as : List (SessionAction σ)) : s.acts? (a :: as) = t.acts? as := by
  rw [acts?, List.foldlM_cons, h]
  rfl

/-- What every action keeps, a run keeps. -/
theorem acts?_induction {P : List (SessionAction σ) → RunningSession σ → Prop} (h0 : P [] s)
    (hstep : ∀ as t a u, s.acts? as = some t → P as t → t.Acted a u → P (as ++ [a]) u)
    {as : List (SessionAction σ)} {t : RunningSession σ} (h : s.acts? as = some t) : P as t := by
  induction as using List.reverseRecOn generalizing t with
  | nil =>
    obtain rfl := Option.some.inj h
    exact h0
  | append_singleton as a ih =>
    rw [acts?_append, Option.bind_eq_some_iff] at h
    obtain ⟨u, hu, ha⟩ := h
    have ha : u.act? a = some t := by simpa [acts?] using ha
    exact hstep as u a t hu (ih hu) (acted_of_act? ha)

end RunningSession

end SpacedReview
