import Mathlib.Data.List.Chain
import SpacedReview.Proofs.Session.Exhaustion

/-!
# The poller forwards the changes

A `PollRun` is a poller at work on its own: what publishes its views, answers its fetches and
receives its updates is not said. As long as nothing closes its channel, the updates that it sends
are the successful outcomes that differ in their fingerprints from the successful ones right before
them, whatever fails in between and however long an update waits for room. The invariant of a run
says the same of the fingerprint that the poller remembers.

## Main definitions

- `PollRun`, `PollRun.act?` — a poller with all that it has done, and what can happen to it
- `PollUpdate.changes` — the updates that differ from the ones right before them
- `PollRun.ForwardsChanges` — what is sent of the outcomes that are met

## Main statements

- `PollRun.forwardsChanges_of_isOpenRun` — every poller forwards the changes
- `RunningSession.exists_pollRun` — the poller of a session is such a poller
-/

namespace SpacedReview

/-! ## Changes -/

namespace PollUpdate

/-- The updates whose fingerprint differs from that of the update right before, the first of all
    included. -/
def changes (us : List PollUpdate) : List PollUpdate :=
  (us.zip (none :: us.map (some ·.fingerprint))).filterMap fun (u, before) =>
    if before = some u.fingerprint then none else some u

theorem changes_concat (us : List PollUpdate) (u : PollUpdate) :
    changes (us ++ [u]) =
      changes us ++ if us.getLast?.map fingerprint = some u.fingerprint then [] else [u] := by
  obtain ⟨befores, hlen, hbefores⟩ : ∃ befores : List (Option String),
      us.length = befores.length ∧
        none :: us.map (some ·.fingerprint) = befores ++ [us.getLast?.map fingerprint] := by
    induction us using List.reverseRecOn with
    | nil => exact ⟨[], rfl, rfl⟩
    | append_singleton vs w =>
      exact ⟨none :: vs.map (some ·.fingerprint), by simp, by simp⟩
  have hold : us.zip (befores ++ [us.getLast?.map fingerprint]) = us.zip befores := by
    have happend : (us ++ []).zip (befores ++ [us.getLast?.map fingerprint]) = _ :=
      List.zip_append hlen
    rwa [List.append_nil, List.zip_nil_left, List.append_nil] at happend
  rw [changes, changes, List.map_append, ← List.cons_append, hbefores, List.append_assoc,
    List.zip_append hlen, hold, List.filterMap_append]
  congr 1
  by_cases hsame : us.getLast?.map fingerprint = some u.fingerprint <;> simp [hsame]

/-- An outcome that is no news after the latest of some updates changes neither what differs among
    them nor the latest fingerprint. -/
theorem changes_of_no_news {us : List PollUpdate} {v : PollView} {o : FetchOutcome}
    (h : news? (us.getLast?.map fingerprint) v o = none) :
    changes (us ++ (o.map fun c => (⟨c, v⟩ : PollUpdate)).toList) = changes us ∧
      (us ++ (o.map fun c => (⟨c, v⟩ : PollUpdate)).toList).getLast?.map fingerprint =
        us.getLast?.map fingerprint := by
  cases o with
  | none => simp
  | some c =>
    have hsame : us.getLast?.map fingerprint = some (fingerprint ⟨c, v⟩) := by
      show _ = some (SpacedReview.fingerprint v c)
      simpa [news?] using h
    rw [Option.map_some, Option.toList_some, changes_concat, if_pos hsame, List.append_nil,
      List.getLast?_concat, hsame, Option.map_some]
    exact ⟨rfl, rfl⟩

theorem getLast?_changes (us : List PollUpdate) :
    (changes us).getLast?.map fingerprint = us.getLast?.map fingerprint := by
  induction us using List.reverseRecOn with
  | nil => rfl
  | append_singleton us u ih =>
    rw [changes_concat, List.getLast?_concat, Option.map_some]
    split
    · rename_i hsame
      rw [List.append_nil, ih, hsame]
    · rw [List.getLast?_concat, Option.map_some]

theorem isChain_changes (us : List PollUpdate) :
    (changes us).IsChain fun u w => u.fingerprint ≠ w.fingerprint := by
  induction us using List.reverseRecOn with
  | nil => exact .nil
  | append_singleton us u ih =>
    rw [changes_concat]
    split
    · rwa [List.append_nil]
    · rename_i hnews
      refine ih.append (.singleton u) fun w hw v hv => ?_
      obtain rfl := Option.some.inj hv
      rw [← getLast?_changes, Option.mem_def.1 hw, Option.map_some] at hnews
      exact fun hsame => hnews (congrArg some hsame)

end PollUpdate

/-! ## Runs -/

namespace Poller

/-- What the source was asked with and what it answered, while the answer has not arrived. -/
def unmet (p : Poller) : List (List String × FetchOutcome) :=
  match p.stage with
  | .answered v o => [(v.putOff, o)]
  | _ => []

/-- The view of the fetch under way. -/
def underWay (p : Poller) : List PollView :=
  match p.stage with
  | .fetching v | .answered v _ => [v]
  | _ => []

theorem finishFetch_of_none {p : Poller} {v : PollView} {o : FetchOutcome}
    (hstage : p.stage = .answered v o) (h : news? p.lastForwarded v o = none) :
    p.finishFetch = { p with stage := .waiting } := by
  rw [finishFetch, hstage]
  simp only [h]

theorem finishFetch_of_some {p : Poller} {v : PollView} {o : FetchOutcome} {u : PollUpdate}
    (hstage : p.stage = .answered v o) (h : news? p.lastForwarded v o = some u) :
    p.finishFetch = { p with lastForwarded := some u.fingerprint }.send u := by
  rw [finishFetch, hstage]
  simp only [h]

theorem send_keeps {p : Poller} (hr : p.isReceived) (u : PollUpdate) :
    (p.send u).isReceived ∧ (p.send u).lastForwarded = p.lastForwarded ∧
      (p.send u).unmet = [] ∧ (p.send u).underWay = [] := by
  rcases p.send_cases u with ⟨hclosed, -⟩ | ⟨-, hsend⟩ | ⟨-, hsend⟩
  · simp [hr] at hclosed
  · rw [hsend]
    exact ⟨hr, rfl, rfl, rfl⟩
  · rw [hsend]
    exact ⟨hr, rfl, rfl, rfl⟩

end Poller

/-- What can happen to a poller. -/
inductive PollerAction where
  /-- A fetch begins because the ticker fires or a view is new. -/
  | startFetch (now : Nat)
  /-- A fetch begins for a new view before the ticker was looked at. -/
  | startViewFetch
  /-- The fetch is answered by a source that is asked with the concepts to put off. -/
  | answerFetch (source : List String → FetchOutcome)
  | finishFetch
  | resend
  | receive
  | publish (v : PollView)
  | settle (now : Nat)
  | closeViews
  | close
  | stop

/-- The channel stays open: the poller is not stopped from outside and its updates can still be
    received. -/
def PollerAction.keepsOpen : PollerAction → Bool
  | close | stop => false
  | _ => true

/-- A poller with what it has done so far. -/
structure PollRun where
  poller : Poller
  /-- The views that were published when fetches began, oldest first. -/
  fetches : List PollView
  /-- What the source was asked with and what it answered, oldest first. -/
  calls : List (List String × FetchOutcome)
  /-- The outcomes that the poller has met, each with the view that it reports, oldest first. -/
  met : List (PollView × FetchOutcome)
  /-- The updates that were received, oldest first. -/
  received : List PollUpdate

namespace PollRun

def start (period capacity now : Nat) : PollRun :=
  ⟨.start period capacity now, [], [], [], []⟩

/-- The effect of an action, where it can happen. -/
def act? (r : PollRun) : PollerAction → Option PollRun
  | .startFetch now =>
    if r.poller.wantsFetch now then
      some { r with poller := r.poller.startFetch now, fetches := r.fetches ++ [r.poller.view] }
    else none
  | .startViewFetch =>
    if r.poller.seesNewView then
      some { r with poller := r.poller.startViewFetch, fetches := r.fetches ++ [r.poller.view] }
    else none
  | .answerFetch source =>
    match r.poller.stage with
    | .fetching v => some { r with
        poller := r.poller.answerFetch (source v.putOff)
        calls := r.calls ++ [(v.putOff, source v.putOff)] }
    | _ => none
  | .finishFetch =>
    match r.poller.stage with
    | .answered v o => some { r with poller := r.poller.finishFetch, met := r.met ++ [(v, o)] }
    | _ => none
  | .resend =>
    match r.poller.stage with
    | .sending _ => some { r with poller := r.poller.resend }
    | _ => none
  | .receive =>
    match r.poller.channel with
    | [] => none
    | u :: rest =>
      some { r with poller := { r.poller with channel := rest }, received := r.received ++ [u] }
  | .publish v => some { r with poller := r.poller.publish v }
  | .settle now => some { r with poller := r.poller.settle now }
  | .closeViews => some { r with poller := r.poller.closeViews }
  | .close => some { r with poller := r.poller.close }
  | .stop => some { r with poller := r.poller.stop }

/-- The effect of some actions one after the other, where they can all happen. -/
def acts? (r : PollRun) (as : List PollerAction) : Option PollRun :=
  as.foldlM act? r

theorem act?_answerFetch {r : PollRun} {v : PollView} (hstage : r.poller.stage = .fetching v)
    {source : List String → FetchOutcome} : r.act? (.answerFetch source) = some { r with
      poller := { r.poller with stage := .answered v (source v.putOff) }
      calls := r.calls ++ [(v.putOff, source v.putOff)] } := by
  simp only [act?, hstage, Poller.answerFetch]

theorem act?_finishFetch {r : PollRun} {v : PollView} {o : FetchOutcome}
    (hstage : r.poller.stage = .answered v o) : r.act? .finishFetch =
      some { r with poller := r.poller.finishFetch, met := r.met ++ [(v, o)] } := by
  simp only [act?, hstage]

theorem act?_resend {r : PollRun} {u : PollUpdate} (hstage : r.poller.stage = .sending u) :
    r.act? .resend = some { r with poller := r.poller.send u } := by
  simp only [act?, hstage, Poller.resend]

theorem act?_receive {r : PollRun} {u : PollUpdate} {rest : List PollUpdate}
    (hchannel : r.poller.channel = u :: rest) : r.act? .receive = some { r with
      poller := { r.poller with channel := rest }, received := r.received ++ [u] } := by
  simp only [act?, hchannel]

theorem acts?_append (r : PollRun) (as bs : List PollerAction) :
    r.acts? (as ++ bs) = (r.acts? as).bind fun t => t.acts? bs :=
  List.foldlM_append

/-- The poller started and its channel has stayed open. -/
def IsOpenRun (r : PollRun) : Prop :=
  ∃ period capacity now as, (start period capacity now).acts? as = some r ∧
    ∀ a ∈ as, a.keepsOpen

theorem IsOpenRun.act {r t : PollRun} {a : PollerAction} (h : r.IsOpenRun) (hopen : a.keepsOpen)
    (ha : r.act? a = some t) : t.IsOpenRun := by
  obtain ⟨period, capacity, now, as, hrun, has⟩ := h
  refine ⟨period, capacity, now, as ++ [a], ?_, ?_⟩
  · rw [acts?_append, hrun]
    simpa [acts?] using ha
  · intro b hb
    rcases List.mem_append.1 hb with hb | hb
    · exact has b hb
    · exact List.mem_singleton.1 hb ▸ hopen

/-- The successful outcomes that were met, oldest first. -/
def successes (r : PollRun) : List PollUpdate :=
  r.met.filterMap fun (v, o) => o.map (⟨·, v⟩)

/-- The updates that were sent, those on their way included, oldest first. -/
def sent (r : PollRun) : List PollUpdate :=
  r.received ++ r.poller.inTransit

/-- What is sent of the outcomes that are met. -/
structure ForwardsChanges (r : PollRun) : Prop where
  /-- The updates are the successes whose fingerprint differs from that of the success before. -/
  sent_eq : r.sent = PollUpdate.changes r.successes
  /-- Updates one after the other have different fingerprints. -/
  isChain_sent : r.sent.IsChain fun u w => u.fingerprint ≠ w.fingerprint
  /-- Failures change nothing: another poller with the same successes sends the same. -/
  sent_eq_of_successes : ∀ t : PollRun, t.IsOpenRun → t.successes = r.successes → t.sent = r.sent
  /-- The latest success has the fingerprint of the latest update. -/
  getLast?_sent : r.sent.getLast?.map PollUpdate.fingerprint =
    r.successes.getLast?.map PollUpdate.fingerprint
  /-- Every outcome is reported with the view of its fetch. At most the last fetch is under way. -/
  fetches_eq : ∃ last, r.fetches = r.met.map (·.1) ++ last ∧ last.length ≤ 1
  /-- Every outcome came of a call with the skipped concepts of the view reported with it. At most
      the last call has an outcome that was not met yet. -/
  calls_eq : ∃ last, r.calls = r.met.map (fun (v, o) => (v.skips.skipped.ids, o)) ++ last ∧
    last.length ≤ 1

/-! ## What a run keeps -/

/-- How the poller of an open run hangs together with what it has done. -/
structure Recorded (r : PollRun) : Prop where
  isReceived : r.poller.isReceived
  /-- The fingerprint that the poller remembers is that of the latest success. -/
  lastForwarded_eq : r.poller.lastForwarded = r.successes.getLast?.map PollUpdate.fingerprint
  sent_eq : r.sent = PollUpdate.changes r.successes
  fetches_eq : r.fetches = r.met.map (·.1) ++ r.poller.underWay
  calls_eq : r.calls = r.met.map (fun (v, o) => (v.putOff, o)) ++ r.poller.unmet

variable {r t : PollRun} {a : PollerAction}

theorem recorded_start (period capacity now : Nat) : (start period capacity now).Recorded := by
  refine ⟨rfl, rfl, ?_, ?_, ?_⟩
  all_goals
    by_cases hperiod : period = 0 <;>
      simp [start, Poller.start, sent, Poller.inTransit, Poller.underWay, Poller.unmet, hperiod,
        successes, PollUpdate.changes]

/-- An action keeps the record if it only moves updates on. -/
theorem Recorded.moves (h : r.Recorded) (hmet : t.met = r.met) (hfetches : t.fetches = r.fetches)
    (hcalls : t.calls = r.calls) (hopen : t.poller.isReceived = r.poller.isReceived)
    (hlast : t.poller.lastForwarded = r.poller.lastForwarded) (hsent : t.sent = r.sent)
    (hunderWay : t.poller.underWay = r.poller.underWay)
    (hunmet : t.poller.unmet = r.poller.unmet) : t.Recorded := by
  have hsuccesses : t.successes = r.successes := by rw [successes, hmet, successes]
  exact ⟨hopen ▸ h.isReceived, by rw [hlast, hsuccesses, h.lastForwarded_eq],
    by rw [hsent, hsuccesses, h.sent_eq], by rw [hfetches, hmet, hunderWay, h.fetches_eq],
    by rw [hcalls, hmet, hunmet, h.calls_eq]⟩

theorem Recorded.startFetch (h : r.Recorded) (hstage : r.poller.stage = .waiting) {p : Poller}
    (hchannel : p.channel = r.poller.channel) (hopen : p.isReceived = r.poller.isReceived)
    (hlast : p.lastForwarded = r.poller.lastForwarded) (hp : p.stage = .fetching r.poller.view) :
    Recorded { r with poller := p, fetches := r.fetches ++ [r.poller.view] } := by
  refine ⟨hopen.trans h.isReceived, hlast.trans h.lastForwarded_eq, Eq.trans ?_ h.sent_eq, ?_, ?_⟩
  · simp only [sent, Poller.inTransit, hp, hstage, hchannel]
  · simp [h.fetches_eq, Poller.underWay, hp, hstage]
  · simp [h.calls_eq, Poller.unmet, hp, hstage]

theorem successes_met (r : PollRun) (p : Poller) (v : PollView) (o : FetchOutcome) :
    successes { r with poller := p, met := r.met ++ [(v, o)] } =
      r.successes ++ (o.map fun c => (⟨c, v⟩ : PollUpdate)).toList := by
  simp only [successes, List.filterMap_append]
  cases o <;> rfl

theorem Recorded.calls_eq_met (h : r.Recorded) {v : PollView} {o : FetchOutcome}
    (hstage : r.poller.stage = .answered v o) :
    r.calls = (r.met ++ [(v, o)]).map (fun (v, o) => (v.putOff, o)) ++ [] := by
  rw [h.calls_eq, List.map_append, Poller.unmet, hstage, List.append_nil]
  rfl

theorem Recorded.fetches_eq_met (h : r.Recorded) {v : PollView} {o : FetchOutcome}
    (hstage : r.poller.stage = .answered v o) :
    r.fetches = (r.met ++ [(v, o)]).map (·.1) ++ [] := by
  rw [h.fetches_eq, List.map_append, Poller.underWay, hstage, List.append_nil]
  rfl

/-- What arrives is sent if it is news. -/
theorem sent_finishFetch (hr : r.poller.isReceived) {v : PollView} {o : FetchOutcome}
    (hstage : r.poller.stage = .answered v o) :
    sent { r with poller := r.poller.finishFetch, met := r.met ++ [(v, o)] } =
      r.sent ++ (news? r.poller.lastForwarded v o).toList := by
  have hsent : r.sent = r.received ++ r.poller.channel := by
    rw [sent, Poller.inTransit_eq_channel (by simp [hstage])]
  cases hnews : news? r.poller.lastForwarded v o with
  | none =>
    rw [Poller.finishFetch_of_none hstage hnews, hsent, sent,
      Poller.inTransit_eq_channel (by simp), Option.toList_none, List.append_nil]
  | some u =>
    have hr : { r.poller with lastForwarded := some u.fingerprint }.isReceived := hr
    rw [Poller.finishFetch_of_some hstage hnews, hsent, sent, Poller.inTransit_send hr,
      Option.toList_some, List.append_assoc]

/-- What is no news has failed, or it has the fingerprint of the latest success. -/
theorem Recorded.suppress (h : r.Recorded) {v : PollView} {o : FetchOutcome}
    (hstage : r.poller.stage = .answered v o) (hnews : news? r.poller.lastForwarded v o = none) :
    Recorded { r with poller := r.poller.finishFetch, met := r.met ++ [(v, o)] } := by
  have hsent := sent_finishFetch h.isReceived hstage
  rw [hnews, Option.toList_none, List.append_nil, h.sent_eq] at hsent
  obtain ⟨hchanges, hlatest⟩ := PollUpdate.changes_of_no_news (h.lastForwarded_eq ▸ hnews)
  refine ⟨?_, ?_, ?_, ?_, ?_⟩
  · rw [Poller.finishFetch_of_none hstage hnews]
    exact h.isReceived
  · rw [successes_met, hlatest, Poller.finishFetch_of_none hstage hnews]
    exact h.lastForwarded_eq
  · rw [hsent, successes_met, hchanges]
  · rw [Poller.finishFetch_of_none hstage hnews]
    exact h.fetches_eq_met hstage
  · rw [Poller.finishFetch_of_none hstage hnews]
    exact h.calls_eq_met hstage

/-- What is news differs from the latest success. -/
theorem Recorded.forward (h : r.Recorded) {v : PollView} {o : FetchOutcome} {u : PollUpdate}
    (hstage : r.poller.stage = .answered v o) (hnews : news? r.poller.lastForwarded v o = some u) :
    Recorded { r with poller := r.poller.finishFetch, met := r.met ++ [(v, o)] } := by
  have hsent := sent_finishFetch h.isReceived hstage
  rw [hnews, Option.toList_some, h.sent_eq] at hsent
  obtain ⟨rfl, rfl, hother⟩ := news?_eq_some.1 hnews
  have hr : { r.poller with lastForwarded := some u.fingerprint }.isReceived := h.isReceived
  obtain ⟨hopen, hlast, hunmet, hunderWay⟩ := Poller.send_keeps hr u
  rw [← Poller.finishFetch_of_some hstage hnews] at hopen hlast hunmet hunderWay
  refine ⟨hopen, ?_, ?_, ?_, ?_⟩
  · rw [successes_met, Option.map_some, Option.toList_some, List.getLast?_concat]
    exact hlast
  · rw [hsent, successes_met, Option.map_some, Option.toList_some, PollUpdate.changes_concat,
      ← h.lastForwarded_eq, if_neg hother]
  · rw [hunderWay]
    exact h.fetches_eq_met hstage
  · rw [hunmet]
    exact h.calls_eq_met hstage

theorem Recorded.finishFetch (h : r.Recorded) {v : PollView} {o : FetchOutcome}
    (hstage : r.poller.stage = .answered v o) :
    Recorded { r with poller := r.poller.finishFetch, met := r.met ++ [(v, o)] } := by
  cases hnews : news? r.poller.lastForwarded v o with
  | none => exact h.suppress hstage hnews
  | some u => exact h.forward hstage hnews

theorem Recorded.act (h : r.Recorded) (hopen : a.keepsOpen) (ha : r.act? a = some t) :
    t.Recorded := by
  cases a with
  | startFetch now =>
    simp only [act?, Option.ite_none_right_eq_some, Option.some.injEq] at ha
    obtain ⟨hwants, rfl⟩ := ha
    refine h.startFetch ?_ rfl rfl rfl rfl
    simp only [Poller.wantsFetch, Poller.isTicking, Poller.seesNewView, ← Bool.and_or_distrib_left,
      Bool.and_eq_true, decide_eq_true_eq] at hwants
    exact hwants.1
  | startViewFetch =>
    simp only [act?, Option.ite_none_right_eq_some, Option.some.injEq, Poller.seesNewView,
      Bool.and_eq_true, decide_eq_true_eq] at ha
    obtain ⟨⟨hstage, -⟩, rfl⟩ := ha
    exact h.startFetch hstage rfl rfl rfl rfl
  | answerFetch source =>
    simp only [act?] at ha
    split at ha
    · rename_i v hstage
      obtain rfl := Option.some.inj ha
      simp only [Poller.answerFetch, hstage]
      refine ⟨h.isReceived, h.lastForwarded_eq, Eq.trans ?_ h.sent_eq, ?_, ?_⟩
      · simp only [sent, Poller.inTransit, hstage]
      · simp [h.fetches_eq, Poller.underWay, hstage]
      · simp [h.calls_eq, Poller.unmet, hstage]
    · cases ha
  | finishFetch =>
    simp only [act?] at ha
    split at ha
    · rename_i v o hstage
      obtain rfl := Option.some.inj ha
      exact h.finishFetch hstage
    · cases ha
  | resend =>
    simp only [act?] at ha
    split at ha
    · rename_i u hstage
      obtain rfl := Option.some.inj ha
      obtain ⟨hopen, hlast, hunmet, hunderWay⟩ := Poller.send_keeps h.isReceived u
      simp only [Poller.resend, hstage]
      refine h.moves rfl rfl rfl (hopen.trans h.isReceived.symm) hlast ?_ ?_ ?_
      · rw [sent, sent, Poller.inTransit_send h.isReceived, Poller.inTransit, hstage]
      · rw [hunderWay, Poller.underWay, hstage]
      · rw [hunmet, Poller.unmet, hstage]
    · cases ha
  | receive =>
    simp only [act?] at ha
    split at ha
    · cases ha
    · rename_i u rest hchannel
      obtain rfl := Option.some.inj ha
      refine h.moves rfl rfl rfl rfl rfl ?_ rfl rfl
      simp [sent, Poller.inTransit, hchannel]
  | publish v =>
    obtain rfl := Option.some.inj ha
    exact h.moves rfl rfl rfl rfl rfl rfl rfl rfl
  | settle now =>
    obtain rfl := Option.some.inj ha
    unfold Poller.settle
    split
    · rename_i hidle
      refine h.moves rfl rfl rfl rfl rfl ?_ ?_ ?_
      · simp only [sent, Poller.inTransit, hidle.1]
      · simp only [Poller.underWay, hidle.1]
      · simp only [Poller.unmet, hidle.1]
    · exact h
  | closeViews =>
    obtain rfl := Option.some.inj ha
    exact h.moves rfl rfl rfl rfl rfl rfl rfl rfl
  | close | stop => cases hopen

theorem recorded_of_isOpenRun (h : r.IsOpenRun) : r.Recorded := by
  obtain ⟨period, capacity, now, as, hrun, hopen⟩ := h
  induction as using List.reverseRecOn generalizing r with
  | nil =>
    obtain rfl := Option.some.inj hrun
    exact recorded_start period capacity now
  | append_singleton as a ih =>
    rw [acts?_append, Option.bind_eq_some_iff] at hrun
    obtain ⟨s, hs, ha⟩ := hrun
    have ha : s.act? a = some r := by simpa [acts?] using ha
    have hbefore := ih hs fun b hb => hopen b (List.mem_append_left _ hb)
    exact hbefore.act (hopen a (by simp)) ha

theorem sent_eq_of_met (hr : r.IsOpenRun) (ht : t.IsOpenRun) (h : t.met = r.met) :
    t.sent = r.sent := by
  rw [(recorded_of_isOpenRun ht).sent_eq, (recorded_of_isOpenRun hr).sent_eq, successes, h,
    successes]

/-- Every poller whose channel stays open forwards the changes. -/
theorem forwardsChanges_of_isOpenRun (h : r.IsOpenRun) : r.ForwardsChanges := by
  have hr := recorded_of_isOpenRun h
  refine ⟨hr.sent_eq, ?_, ?_, ?_, ⟨_, hr.fetches_eq, ?_⟩, ⟨_, hr.calls_eq, ?_⟩⟩
  · rw [hr.sent_eq]
    exact PollUpdate.isChain_changes _
  · intro t ht heq
    rw [(recorded_of_isOpenRun ht).sent_eq, hr.sent_eq, heq]
  · rw [hr.sent_eq]
    exact PollUpdate.getLast?_changes _
  · unfold Poller.underWay
    split <;> simp
  · unfold Poller.unmet
    split <;> simp

/-- A fetch from its beginning to its end. -/
def fetchAt (now : Nat) (source : List String → FetchOutcome) : List PollerAction :=
  [.startFetch now, .answerFetch source, .finishFetch]

theorem acts?_fetchAt {now : Nat} (hwants : r.poller.wantsFetch now)
    (source : List String → FetchOutcome) :
    r.acts? (fetchAt now source) = some { r with
      poller := ((r.poller.startFetch now).answerFetch (source r.poller.view.putOff)).finishFetch
      fetches := r.fetches ++ [r.poller.view]
      calls := r.calls ++ [(r.poller.view.putOff, source r.poller.view.putOff)]
      met := r.met ++ [(r.poller.view, source r.poller.view.putOff)] } := by
  simp [fetchAt, acts?, act?, hwants, Poller.startFetch, Poller.answerFetch]

/-- A source that has but one question. -/
def oneAnswer (_ : List String) : FetchOutcome :=
  some RunningSession.onlyCandidate

/-- A poller with room for one update whose only question comes back: at first the source fails,
    then it answers twice, and when the question was skipped it answers again. -/
def comesBack : List PollerAction :=
  fetchAt 0 (fun _ => none) ++ fetchAt 100 oneAnswer ++ fetchAt 200 oneAnswer ++
    (.publish RunningSession.skippedView :: fetchAt 250 oneAnswer) ++ [.receive, .resend]

/-- The poller when its question has come back. -/
def cameBack : PollRun :=
  let c := RunningSession.onlyCandidate
  let w := RunningSession.skippedView
  { poller := {
      ticker := ⟨100, 300⟩, stage := .waiting, lastForwarded := some (fingerprint w c), view := w,
      hasNewView := false, isWatching := true, channel := [⟨c, w⟩], capacity := 1,
      isReceived := true }
    fetches := [.first, .first, .first, w]
    calls := [([], none), ([], some c), ([], some c), (["c"], some c)]
    met := [(.first, none), (.first, some c), (.first, some c), (w, some c)]
    received := [⟨c, .first⟩] }

theorem acts?_comesBack : (start 100 1 0).acts? comesBack = some cameBack := by
  let c := RunningSession.onlyCandidate
  let w := RunningSession.skippedView
  have hsame : news? (some (fingerprint .first c)) .first (some c) = none := if_pos rfl
  have hother : news? (some (fingerprint .first c)) w (some c) = some ⟨c, w⟩ :=
    if_neg fun h => RunningSession.fingerprint_skippedView (Option.some.inj h)
  let asked : PollRun := {
    poller := {
      ticker := ⟨100, 200⟩, stage := .waiting, lastForwarded := some (fingerprint .first c),
      view := .first, hasNewView := false, isWatching := true, channel := [⟨c, .first⟩],
      capacity := 1, isReceived := true }
    fetches := [.first, .first]
    calls := [([], none), ([], some c)]
    met := [(.first, none), (.first, some c)]
    received := [] }
  let repeated : PollRun := { asked with
    poller := { asked.poller with ticker := ⟨100, 300⟩ }
    fetches := [.first, .first, .first]
    calls := [([], none), ([], some c), ([], some c)]
    met := [(.first, none), (.first, some c), (.first, some c)] }
  let full : PollRun := { cameBack with
    poller := { cameBack.poller with stage := .sending ⟨c, w⟩, channel := [⟨c, .first⟩] }
    received := [] }
  have hasked : (start 100 1 0).acts? (fetchAt 0 (fun _ => none) ++ fetchAt 100 oneAnswer) =
      some asked := by
    rw [acts?_append, acts?_fetchAt (by decide)]
    rfl
  have hrepeated : asked.acts? (fetchAt 200 oneAnswer) = some repeated := by
    rw [acts?_fetchAt (by decide), Poller.finishFetch_of_none rfl hsame]
    rfl
  have hfull : repeated.acts? (.publish w :: fetchAt 250 oneAnswer) = some full := by
    show acts? { repeated with poller := repeated.poller.publish w } _ = _
    rw [acts?_fetchAt (by decide), Poller.finishFetch_of_some rfl hother]
    rfl
  rw [comesBack, acts?_append, acts?_append, acts?_append, hasked, Option.bind_some, hrepeated,
    Option.bind_some, hfull]
  rfl

/-- The question is sent when it is first found and again under the new view, although it had to
    wait for room, and neither the failure nor the repetition shows. -/
theorem forwardsChanges_of_comesBack :
    cameBack.ForwardsChanges ∧ cameBack.successes.length = 3 ∧
      cameBack.sent = [⟨RunningSession.onlyCandidate, .first⟩,
        ⟨RunningSession.onlyCandidate, RunningSession.skippedView⟩] :=
  ⟨forwardsChanges_of_isOpenRun ⟨100, 1, 0, comesBack, acts?_comesBack, by decide⟩, rfl, rfl⟩

end PollRun

/-! ## Sessions -/

namespace RunningSession

variable {σ : Type} {s t : RunningSession σ} {a : SessionAction σ} {r : PollRun}

/-- What the review queue answers when it is asked with the concepts to put off. -/
def source (s : RunningSession σ) (ids : List String) : FetchOutcome :=
  match s.backend.next s.store s.fetchDate ids with
  | .ok c => some c
  | .error _ => none

/-- The poller of a session, with what it has done so far. -/
structure Follows (r : PollRun) (s : RunningSession σ) : Prop where
  isOpenRun : r.IsOpenRun
  poller_eq : r.poller = s.poller
  fetches_eq : r.fetches = s.fetches

theorem Follows.handle (h : Follows r s) (m : SessionMessage) :
    Follows { r with poller := (s.handle m).poller } (s.handle m) := by
  refine ⟨?_, rfl, h.fetches_eq⟩
  rcases s.poller_handle m with ⟨hm, -⟩ | hm
  · rw [hm, ← h.poller_eq]
    exact h.isOpenRun
  · rw [hm, ← h.poller_eq]
    exact h.isOpenRun.act (a := .publish (s.handle m).loop.view) rfl rfl

/-- An action of the session that does not end it goes on with the work of the poller. -/
theorem Follows.act (h : Follows r s) (ha : s.act? a = some t) (hopen : a ≠ .timeOut) :
    ∃ u, Follows u t ∧ u.sent = r.sent ++ s.forwardSeen a ∧
      ∀ call ∈ u.calls, call ∈ r.calls ∨ call.2 = none ∨ call.2 = s.source call.1 := by
  -- An action that meets no outcome sends nothing.
  have hquiet {u : PollRun} (hu : Follows u t) (hmet : u.met = r.met)
      (hseen : s.forwardSeen a = []) : u.sent = r.sent ++ s.forwardSeen a := by
    rw [hseen, List.append_nil]
    exact PollRun.sent_eq_of_met h.isOpenRun hu.isOpenRun hmet
  obtain ⟨p, fetches, calls, met, received⟩ := r
  obtain ⟨hrun, rfl, rfl⟩ := h
  cases acted_of_act? ha with
  | pass | setDate | edit | dateWrite | write | failWrite =>
    exact ⟨_, ⟨hrun, rfl, rfl⟩, hquiet ⟨hrun, rfl, rfl⟩ rfl rfl, fun _ => .inl⟩
  | startFetch hstage =>
    have hwants : s.poller.wantsFetch s.now := by
      by_contra hno
      simp [act?, hno] at ha
    have hu := hrun.act (a := .startFetch s.now) rfl (if_pos hwants)
    exact ⟨_, ⟨hu, rfl, rfl⟩, hquiet ⟨hu, rfl, rfl⟩ rfl rfl, fun _ => .inl⟩
  | startViewFetch hstage =>
    have hsees : s.poller.seesNewView := by
      by_contra hno
      simp [act?, hno] at ha
    have hu := hrun.act (a := .startViewFetch) rfl (if_pos hsees)
    exact ⟨_, ⟨hu, rfl, rfl⟩, hquiet ⟨hu, rfl, rfl⟩ rfl rfl, fun _ => .inl⟩
  | answerFetch hstage =>
    have hu := hrun.act (a := .answerFetch s.source) rfl (PollRun.act?_answerFetch hstage)
    refine ⟨_, ⟨hu, rfl, rfl⟩, hquiet ⟨hu, rfl, rfl⟩ rfl rfl, fun call hcall => ?_⟩
    refine (List.mem_append.1 hcall).imp_right fun hnew => .inr ?_
    rw [List.mem_singleton.1 hnew]
  | failFetch hstage =>
    have hu := hrun.act (a := .answerFetch fun _ => none) rfl (PollRun.act?_answerFetch hstage)
    refine ⟨_, ⟨hu, rfl, rfl⟩, hquiet ⟨hu, rfl, rfl⟩ rfl rfl, fun call hcall => ?_⟩
    refine (List.mem_append.1 hcall).imp_right fun hnew => .inl ?_
    rw [List.mem_singleton.1 hnew]
  | @suppress v o hstage hnews =>
    have hu := hrun.act (a := .finishFetch) rfl (PollRun.act?_finishFetch hstage)
    refine ⟨_, ⟨hu, Poller.finishFetch_of_none hstage hnews, rfl⟩, ?_, fun _ => .inl⟩
    simp only [forwardSeen, hstage]
    exact PollRun.sent_finishFetch (PollRun.recorded_of_isOpenRun hrun).isReceived hstage
  | @forward v o u hstage hnews =>
    have hu := hrun.act (a := .finishFetch) rfl (PollRun.act?_finishFetch hstage)
    refine ⟨_, ⟨hu, Poller.finishFetch_of_some hstage hnews, rfl⟩, ?_, fun _ => .inl⟩
    simp only [forwardSeen, hstage]
    exact PollRun.sent_finishFetch (PollRun.recorded_of_isOpenRun hrun).isReceived hstage
  | resend hstage =>
    have hu := hrun.act (a := .resend) rfl (PollRun.act?_resend hstage)
    exact ⟨_, ⟨hu, rfl, rfl⟩, hquiet ⟨hu, rfl, rfl⟩ rfl rfl, fun _ => .inl⟩
  | @receive u rest hchannel =>
    have hreceived := hrun.act (a := .receive) rfl (PollRun.act?_receive hchannel)
    have hu := Follows.handle (s := { s with poller := { s.poller with channel := rest } })
      ⟨hreceived, rfl, rfl⟩ (.update u)
    exact ⟨_, hu, hquiet hu rfl rfl, fun _ => .inl⟩
  | command c =>
    have hu := Follows.handle ⟨hrun, rfl, rfl⟩ (.command c)
    exact ⟨_, hu, hquiet hu rfl rfl, fun _ => .inl⟩
  | @written earlier later w r hws hw =>
    have hu := Follows.handle (s := { s with writes := earlier ++ later }) ⟨hrun, rfl, rfl⟩
      (.written r)
    exact ⟨_, hu, hquiet hu rfl rfl, fun _ => .inl⟩
  | timeOut => exact absurd rfl hopen

/-- The poller of a session is a poller at work whose channel stays open until the session gives up.
    It sends what the session forwards, and the review queue answers it as it stands at the time. -/
theorem exists_pollRun (setup : SessionSetup) (backend : ReviewBackend σ) (store : σ)
    (date : Instant) (pollInterval : Nat) {as : List (SessionAction σ)}
    (hrun : (startOn setup backend store date pollInterval).acts? as = some t)
    (hopen : .timeOut ∉ as) :
    ∃ r, Follows r t ∧ r.sent = (startOn setup backend store date pollInterval).forwards as ∧
      ∀ call ∈ r.calls, call.2 = none ∨ ∃ bs s, bs <+: as ∧
        (startOn setup backend store date pollInterval).acts? bs = some s ∧
          call.2 = s.source call.1 := by
  induction as using List.reverseRecOn generalizing t with
  | nil =>
    obtain rfl := Option.some.inj hrun
    refine ⟨.start pollInterval updateCapacity 0,
      ⟨⟨pollInterval, updateCapacity, 0, [], rfl, by simp⟩, rfl, rfl⟩, ?_, by simp [PollRun.start]⟩
    exact (PollRun.recorded_start pollInterval updateCapacity 0).sent_eq
  | append_singleton as a ih =>
    rw [acts?_append, Option.bind_eq_some_iff] at hrun
    obtain ⟨s, hs, ha⟩ := hrun
    have ha : s.act? a = some t := by simpa [acts?] using ha
    obtain ⟨r, hr, hsent, hcalls⟩ := ih hs fun h => hopen (List.mem_append_left _ h)
    obtain ⟨u, hu, hgoes, hnew⟩ := hr.act ha fun h => hopen (by simp [h])
    refine ⟨u, hu, ?_, fun call hcall => ?_⟩
    · rw [hgoes, hsent, forwards, forwards, observed_concat forwardSeen hs]
    · rcases hnew call hcall with hold | hnone | hanswer
      · rcases hcalls call hold with hnone | ⟨bs, s', hprefix, hbs, hanswer⟩
        · exact .inl hnone
        · exact .inr ⟨bs, s', hprefix.trans (List.prefix_append _ _), hbs, hanswer⟩
      · exact .inl hnone
      · exact .inr ⟨as, s, List.prefix_append _ _, hs, hanswer⟩

end RunningSession

end SpacedReview
