import SpacedReview.Proofs.Session.Provenance
import SpacedReview.Proofs.Session.Watchdog

/-!
# Views of one generation

A session never publishes two views of one generation. A result that is accepted for its generation
was therefore fetched under the very view that the session published last, which shows what it has
skipped.

## Main definitions

- `PollView.UpTo` — a view that was published before another one, or that one itself
- `PollView.LeadsTo` — views that were published one after the other
- `SessionLoop.viewsOn` — the views that the loop publishes on a message

## Main statements

- `SessionLoop.leadsTo_viewsOn` — the views of a message are numbered in their order
- `RunningSession.view_eq_of_accepts` — what an accepted update was fetched under
-/

namespace SpacedReview

namespace PollView

variable {v w x : PollView} {vs ws : List PollView}

/-- The view is older than another one, or it is that one. -/
def UpTo (v w : PollView) : Prop :=
  v.generation < w.generation ∨ v = w

theorem UpTo.refl (v : PollView) : v.UpTo v :=
  .inr rfl

theorem UpTo.trans (hvw : v.UpTo w) (hwx : w.UpTo x) : v.UpTo x := by
  rcases hvw with hlt | rfl
  · rcases hwx with hlt' | rfl
    · exact .inl (Nat.lt_trans hlt hlt')
    · exact .inl hlt
  · exact hwx

theorem UpTo.eq_of_generation (h : v.UpTo w) (hg : v.generation = w.generation) : v = w := by
  rcases h with hlt | heq
  · exact absurd hg (Nat.ne_of_lt hlt)
  · exact heq

theorem upTo_succeed (v : PollView) (skips : SkipView) : v.UpTo (v.succeed skips) :=
  .inl (Nat.lt_succ_self _)

/-! ## Views in their order -/

/-- After a view `v` the views `vs` were published, each of them the next one after the view
    before, and `w` is the last of all. -/
inductive LeadsTo : PollView → List PollView → PollView → Prop where
  | nothing (v : PollView) : LeadsTo v [] v
  | succeed {v w : PollView} {vs : List PollView} (skips : SkipView) :
      LeadsTo (v.succeed skips) vs w → LeadsTo v (v.succeed skips :: vs) w

namespace LeadsTo

theorem append (h : v.LeadsTo vs w) (h' : w.LeadsTo ws x) : v.LeadsTo (vs ++ ws) x := by
  induction h with
  | nothing => exact h'
  | succeed skips _ ih => exact .succeed skips (ih h')

theorem generation_lt (h : v.LeadsTo vs w) (hx : x ∈ vs) : v.generation < x.generation := by
  induction h with
  | nothing => cases hx
  | @succeed v w vs skips _ ih =>
    have hnext : v.generation < (v.succeed skips).generation := Nat.lt_succ_self _
    rcases List.mem_cons.1 hx with rfl | hx
    · exact hnext
    · exact Nat.lt_trans hnext (ih hx)

theorem pairwise (h : v.LeadsTo vs w) :
    (v :: vs).Pairwise fun a b => a.generation < b.generation := by
  induction h with
  | nothing v => exact List.pairwise_singleton _ v
  | succeed skips h ih =>
    exact List.pairwise_cons.2 ⟨fun _ hx => (LeadsTo.succeed skips h).generation_lt hx, ih⟩

theorem getLast?_eq (h : v.LeadsTo vs w) : (v :: vs).getLast? = some w := by
  induction h with
  | nothing => rfl
  | succeed skips _ ih => rw [List.getLast?_cons_cons, ih]

theorem upTo (h : v.LeadsTo vs w) (hx : x ∈ v :: vs) : x.UpTo w := by
  induction h generalizing x with
  | nothing v => exact List.mem_singleton.1 hx ▸ .refl v
  | @succeed v w vs skips _ ih =>
    rcases List.mem_cons.1 hx with rfl | hx
    · exact (upTo_succeed _ skips).trans (ih List.mem_cons_self)
    · exact ih hx

end LeadsTo

theorem succeed_ne_self (v : PollView) (skips : SkipView) : v.succeed skips ≠ v :=
  fun h => Nat.succ_ne_self v.generation (congrArg generation h)

/-- The view to publish is published if it is another one. -/
theorem leadsTo_update (v : PollView) (skips : SkipView) (refetch : Bool) :
    v.LeadsTo (if v.update skips refetch = v then [] else [v.update skips refetch])
      (v.update skips refetch) := by
  unfold update
  split
  · rw [if_pos rfl]
    exact .nothing v
  · rw [if_neg (v.succeed_ne_self skips)]
    exact .succeed skips (.nothing _)

end PollView

/-! ## What is published on a message -/

namespace SessionLoop

variable {setup : SessionSetup} {l : SessionLoop}

/-- The views that the loop publishes while it dispatches events, oldest first. -/
def viewsOf (l : SessionLoop) : List SessionEvent → List PollView
  | [] => []
  | e :: es =>
    (if (l.dispatch e).view = l.view then [] else [(l.dispatch e).view]) ++ (l.dispatch e).viewsOf es

/-- The views that the loop publishes on a message, oldest first. The end of a write has no event,
    but a view is published all the same. -/
def viewsOn (setup : SessionSetup) (l : SessionLoop) : SessionMessage → List PollView
  | .written r => [(l.onWritten r).1.view]
  | m => l.viewsOf (l.eventsOn setup m)

theorem leadsTo_viewsOf (es : List SessionEvent) (l : SessionLoop) :
    l.view.LeadsTo (l.viewsOf es) (es.foldl dispatch l).view := by
  induction es generalizing l with
  | nil => exact .nothing _
  | cons e es ih => exact (PollView.leadsTo_update ..).append (ih (l.dispatch e))

/-- What is published on a message comes in its order between the view before the message and the
    one after it. -/
theorem leadsTo_viewsOn (setup : SessionSetup) (now : Nat) (l : SessionLoop) (m : SessionMessage) :
    l.view.LeadsTo (l.viewsOn setup m) (l.turn setup now m).view := by
  obtain ⟨l', h, ht⟩ := exists_stepped setup now l m
  rw [ht, view_arm]
  cases h with
  | overlooked h =>
    simp only [viewsOn, eventsOn, dispatched, h]
    exact .nothing _
  | routed h =>
    simp only [viewsOn, eventsOn, dispatched_of_accepts h]
    exact leadsTo_viewsOf ..
  | refused h =>
    simp only [viewsOn, eventsOn_command_of_none h]
    exact .nothing _
  | submitted _ _ _ h | skipped h =>
    simp only [viewsOn, eventsOn, h]
    exact leadsTo_viewsOf [_] l
  | written r => exact .succeed _ (.nothing _)
  | gaveUp => exact leadsTo_viewsOf [.loadTimeout] l

theorem upTo_turn (now : Nat) (m : SessionMessage) :
    l.view.UpTo (l.turn setup now m).view :=
  (leadsTo_viewsOn setup now l m).upTo List.mem_cons_self

end SessionLoop

/-! ## What is on its way -/

namespace RunningSession

variable {σ : Type} {s : RunningSession σ}

theorem Acted.view_upTo {a : SessionAction σ} {t : RunningSession σ} (ha : s.Acted a t) :
    s.loop.view.UpTo t.loop.view := by
  rw [ha.loop_eq]
  cases s.message? a with
  | none => exact .refl _
  | some m => exact SessionLoop.upTo_turn s.now m

/-- What is on its way stays fetched under views that the session has published, and so does what an
    action adds to it. -/
theorem Acted.carries_view {came : PollUpdate → Prop} {a : SessionAction σ} {t : RunningSession σ}
    (ha : s.Acted a t) (hs : s.Sound)
    (h : s.poller.Carries (fun v => v.UpTo s.loop.view) fun u =>
      u.view.UpTo s.loop.view ∧ came u)
    (hcame : ∀ u, s.outcome u.view = some u.candidate → came u) :
    t.poller.Carries (fun v => v.UpTo t.loop.view) fun u =>
      u.view.UpTo t.loop.view ∧ came u := by
  have hview := ha.view_upTo
  refine ha.carries h (fun _ => ?_) (fun _ v hv => hv.trans hview)
    (fun u hu => ⟨hu.1.trans hview, hu.2⟩) fun _ u hu hc => ⟨hu.trans hview, hcame u hc⟩
  rw [hs.view_eq]
  exact hview

theorem view_eq_of_carries {asked : PollView → Prop} {came : PollUpdate → Prop}
    (h : s.poller.Carries asked fun u => u.view.UpTo s.loop.view ∧ came u) {u : PollUpdate}
    (hu : u ∈ s.poller.inTransit) (ha : s.loop.accepts u) : u.view = s.loop.view ∧ came u := by
  obtain ⟨hview, hcame⟩ := h.of_inTransit u hu
  obtain ⟨-, hg, -⟩ := SessionLoop.accepts_iff.1 ha
  exact ⟨hview.eq_of_generation hg, hcame⟩

/-- In a run that starts with nothing on its way, an accepted update was fetched under the view that
    the session published last. -/
theorem view_eq_of_accepts (hs : s.Sound)
    (h0 : s.poller.Carries (fun _ => False) fun _ => False) {as : List (SessionAction σ)}
    {t : RunningSession σ} (hrun : s.acts? as = some t) {u : PollUpdate}
    (hu : u ∈ t.poller.inTransit) (ha : t.loop.accepts u) : u.view = t.loop.view := by
  have hcarries : t.poller.Carries (fun v => v.UpTo t.loop.view) fun u =>
      u.view.UpTo t.loop.view ∧ True := by
    refine acts?_induction (P := fun _ t => t.poller.Carries (fun v => v.UpTo t.loop.view)
      fun u => u.view.UpTo t.loop.view ∧ True) (h0.mono (fun _ h => h.elim) fun _ h => h.elim) ?_
      hrun
    intro as t a u hrun ht ha
    exact ha.carries_view (sound_of_acts? hs hrun) ht fun _ _ => trivial
  exact (view_eq_of_carries hcarries hu ha).1

end RunningSession

end SpacedReview
