import Mathlib.Data.List.Induction
import Mathlib.Logic.Function.Iterate
import SpacedReview.Proofs.Review.Tally
import SpacedReview.Proofs.Time.Instants

/-!
# Submissions that overlap

Two submissions share a store, and their store operations follow each other in any order. The
record of an answer replaces the memory of its concept and the attempts of its phrasing by what
the submission has planned from its own look-ups. If a submission has looked up a record before
the other one wrote to it, the count of the other answer is overwritten; the logs keep both.

## Main definitions

- `SharedStore.run` — two submissions whose store operations are done in a given order
- `SharedStore.Accounted` — what two answers about one concept have left behind

## Main statements

- `SharedStore.accounted_of_overlap` — which counts are kept, for every order
- `SharedStore.reps_eq_one_of_overlap` — a count that is overwritten
-/

namespace SpacedReview

/-- A submission with all that it is given. -/
structure SubmitCall where
  parameters : Parameters
  request : SubmitRequest
  now : Instant
  interactionId : String

namespace SubmitCall

variable {σ : Type} [ReviewStore σ] (call : SubmitCall)

/-- The record of the answer. -/
def interaction : Interaction :=
  call.request.interaction call.now call.interactionId

/-- The next store operation of the submission, together with the store. -/
def act (s : σ × Submission) : σ × Submission :=
  s.2.step call.parameters.engine call.request call.now call.interactionId s.1

/-- The submission after some of its store operations, if the store stays as it is. -/
def stageAt (store : σ) : Nat → Submission
  | 0 => .atConcept
  | n + 1 => (call.act (store, stageAt store n)).2

/-- The look-ups and the plan that a submission has recorded. The concept and the phrasing may be
    looked up in different stores. -/
structure Recorded (concepts phrasings written final : σ) (c : Concept) (p : Phrasing)
    (patch : ReviewPatch) : Prop where
  concept : ReviewStore.concept? concepts call.request.conceptId = .ok (some c)
  phrasing : ReviewStore.phrasing? phrasings call.request.phrasingId = .ok (some p)
  plan : ∃ outcome, planReview call.parameters.engine call.request call.now call.interactionId c p =
    .ok (patch, outcome)
  record : ReviewStore.record written patch = .ok final

variable {call}

/-! ## One submission -/

/-- The look-ups leave the store as it is. -/
theorem fst_act_stageAt (store : σ) {n : Nat} (h : n < 2) :
    (call.act (store, call.stageAt store n)).1 = store := by
  match n with
  | 0 => rfl
  | 1 =>
    show (call.act (store, Submission.afterConcept call.request
      (ReviewStore.concept? store call.request.conceptId))).1 = store
    rcases ReviewStore.concept? store call.request.conceptId with e | _ | c <;> rfl

theorem afterConcept_ne_ok {r : SubmitRequest} {found : Except StoreError (Option Concept)}
    {outcome : SubmitOutcome} : Submission.afterConcept r found ≠ .done (.ok outcome) := by
  rcases found with e | _ | c <;> simp [Submission.afterConcept]

theorem afterPhrasing_ne_ok {e : Engine} {r : SubmitRequest} {now : Instant} {id : String}
    {c : Concept} {found : Except StoreError (Option Phrasing)} {outcome : SubmitOutcome} :
    Submission.afterPhrasing e r now id c found ≠ .done (.ok outcome) := by
  rcases found with err | _ | p
  · simp [Submission.afterPhrasing]
  · simp [Submission.afterPhrasing]
  · rcases hplan : planReview e r now id c p with err | ⟨patch, planned⟩ <;>
      simp [Submission.afterPhrasing, hplan]

/-- A submission does not succeed by looking records up. -/
theorem stageAt_ne_ok (store : σ) {n : Nat} (h : n ≤ 2) (outcome : SubmitOutcome) :
    call.stageAt store n ≠ .done (.ok outcome) := by
  match n with
  | 0 => simp [stageAt]
  | 1 => exact afterConcept_ne_ok
  | 2 =>
    show (call.act (store, Submission.afterConcept call.request
      (ReviewStore.concept? store call.request.conceptId))).2 ≠ _
    rcases ReviewStore.concept? store call.request.conceptId with e | _ | c
    · simp [act, Submission.afterConcept, Submission.step]
    · simp [act, Submission.afterConcept, Submission.step]
    · exact afterPhrasing_ne_ok

theorem act_done (store : σ) (result : Except SubmitError SubmitOutcome) :
    call.act (store, .done result) = (store, .done result) :=
  rfl

theorem iterate_act_done (n : Nat) (store : σ) (result : Except SubmitError SubmitOutcome) :
    call.act^[n] (store, .done result) = (store, .done result) :=
  Function.iterate_fixed (act_done store result) n

/-- An operation is left to do, or the submission has ended where it stands. -/
theorem iterate_act_of_ne_done {n : Nat} {s : σ × Submission} {final : σ} {outcome : SubmitOutcome}
    (h : call.act^[n] s = (final, .done (.ok outcome))) (hs : ∀ o, s.2 ≠ .done (.ok o)) :
    ∃ m, call.act^[m] (call.act s) = (final, .done (.ok outcome)) := by
  cases n with
  | zero => exact absurd (congrArg Prod.snd h) (hs outcome)
  | succ m => exact ⟨m, h⟩

theorem not_iterate_act_error {n : Nat} {store final : σ} {e : SubmitError}
    {outcome : SubmitOutcome} :
    call.act^[n] (store, .done (.error e)) ≠ (final, .done (.ok outcome)) := by
  rw [iterate_act_done]
  simp

theorem record_of_iterate_act {n : Nat} {store final : σ} {patch : ReviewPatch}
    {planned outcome : SubmitOutcome}
    (h : call.act^[n] (store, .atRecord patch planned) = (final, .done (.ok outcome))) :
    ReviewStore.record store patch = .ok final := by
  obtain ⟨m, hm⟩ := iterate_act_of_ne_done h (by simp)
  cases hr : ReviewStore.record store patch with
  | error e =>
    have hact : call.act (store, .atRecord patch planned) =
        (store, .done (.error (.review (.store e)))) := by
      simp only [act, Submission.step, hr]
    rw [hact] at hm
    exact absurd hm not_iterate_act_error
  | ok store' =>
    have hact : call.act (store, .atRecord patch planned) = (store', .done (.ok planned)) := by
      simp only [act, Submission.step, hr]
    rw [hact, iterate_act_done] at hm
    rw [(Prod.mk.inj hm).1]

theorem phrasing_of_iterate_act {n : Nat} {phrasings store final : σ} {c : Concept}
    {outcome : SubmitOutcome}
    (h : call.act^[n] (store, Submission.afterPhrasing call.parameters.engine call.request call.now
      call.interactionId c (ReviewStore.phrasing? phrasings call.request.phrasingId)) =
        (final, .done (.ok outcome))) :
    ∃ p patch planned,
      ReviewStore.phrasing? phrasings call.request.phrasingId = .ok (some p) ∧
      planReview call.parameters.engine call.request call.now call.interactionId c p =
        .ok (patch, planned) ∧
      ReviewStore.record store patch = .ok final := by
  rcases hp : ReviewStore.phrasing? phrasings call.request.phrasingId with e | _ | p
  · rw [hp] at h
    exact absurd h not_iterate_act_error
  · rw [hp] at h
    exact absurd h not_iterate_act_error
  · rcases hplan : planReview call.parameters.engine call.request call.now call.interactionId c p
      with e | ⟨patch, planned⟩
    · simp only [hp, Submission.afterPhrasing, hplan] at h
      exact absurd h not_iterate_act_error
    · simp only [hp, Submission.afterPhrasing, hplan] at h
      exact ⟨p, patch, planned, rfl, hplan, record_of_iterate_act h⟩

/-- A submission that has done up to two operations on one store and succeeds on another one has
    looked up in the first store what it could, and the rest in the second one. -/
theorem exists_recorded {n k : Nat} {before store final : σ} {outcome : SubmitOutcome} (hk : k ≤ 2)
    (h : call.act^[n] (store, call.stageAt before k) = (final, .done (.ok outcome))) :
    ∃ c p patch, call.Recorded (if k = 0 then store else before) (if k ≤ 1 then store else before)
      store final c p patch := by
  -- The look-up of the concept, in either store, leads on to that of the phrasing.
  have hconcept : ∀ {concepts : σ} {m : Nat},
      call.act^[m] (store, Submission.afterConcept call.request
        (ReviewStore.concept? concepts call.request.conceptId)) = (final, .done (.ok outcome)) →
      ∃ c m', ReviewStore.concept? concepts call.request.conceptId = .ok (some c) ∧
        call.act^[m'] (store, Submission.afterPhrasing call.parameters.engine call.request call.now
          call.interactionId c (ReviewStore.phrasing? store call.request.phrasingId)) =
            (final, .done (.ok outcome)) := by
    intro concepts m hm
    rcases hc : ReviewStore.concept? concepts call.request.conceptId with e | _ | c
    · rw [hc] at hm
      exact absurd hm not_iterate_act_error
    · rw [hc] at hm
      exact absurd hm not_iterate_act_error
    · rw [hc] at hm
      obtain ⟨m', hm'⟩ := iterate_act_of_ne_done hm (by simp [Submission.afterConcept])
      exact ⟨c, m', rfl, hm'⟩
  obtain rfl | rfl | rfl : k = 0 ∨ k = 1 ∨ k = 2 := by omega
  · obtain ⟨m, hm⟩ := iterate_act_of_ne_done h (by simp [stageAt])
    obtain ⟨c, m', hc, hm'⟩ := hconcept hm
    obtain ⟨p, patch, planned, hp, hplan, hrecord⟩ := phrasing_of_iterate_act hm'
    exact ⟨c, p, patch, hc, hp, ⟨planned, hplan⟩, hrecord⟩
  · have hstage : call.stageAt before 1 = Submission.afterConcept call.request
      (ReviewStore.concept? before call.request.conceptId) := rfl
    rw [hstage] at h
    obtain ⟨c, m', hc, hm'⟩ := hconcept h
    obtain ⟨p, patch, planned, hp, hplan, hrecord⟩ := phrasing_of_iterate_act hm'
    exact ⟨c, p, patch, hc, hp, ⟨planned, hplan⟩, hrecord⟩
  · have hstage : call.stageAt before 2 = (call.act (before, Submission.afterConcept call.request
      (ReviewStore.concept? before call.request.conceptId))).2 := rfl
    rw [hstage] at h
    rcases hc : ReviewStore.concept? before call.request.conceptId with e | _ | c
    · rw [hc] at h
      exact absurd h not_iterate_act_error
    · rw [hc] at h
      exact absurd h not_iterate_act_error
    · rw [hc] at h
      obtain ⟨p, patch, planned, hp, hplan, hrecord⟩ := phrasing_of_iterate_act h
      exact ⟨c, p, patch, hc, hp, ⟨planned, hplan⟩, hrecord⟩

variable [Tally σ]

/-- What a recorded plan does to the counters and the log. -/
structure Counted (call : SubmitCall) (reps attempts : UInt32) (written final : σ) : Prop where
  reps : Tally.reps? final call.request.conceptId = some (reps + 1)
  attempts : ∀ id, Tally.attempts? final id =
    if id = call.request.phrasingId then some (countUp attempts) else Tally.attempts? written id
  logs : ∀ i, Tally.Logs written i ∨ i = call.interaction → Tally.Logs final i

/-- A submission counts on from what it has looked up. -/
theorem Recorded.counted {concepts phrasings written final : σ} {c : Concept} {p : Phrasing}
    {patch : ReviewPatch} (h : call.Recorded concepts phrasings written final c p patch) :
    ∃ reps attempts, Tally.reps? concepts call.request.conceptId = some reps ∧
      Tally.attempts? phrasings call.request.phrasingId = some attempts ∧
      call.Counted reps attempts written final := by
  obtain ⟨hc, hreps⟩ := Tally.of_concept? h.concept
  obtain ⟨hp, hattempts⟩ := Tally.of_phrasing? h.phrasing
  obtain ⟨outcome, hplan⟩ := h.plan
  obtain ⟨-, -, result, hresult, rfl, -⟩ := (planReview_eq_ok hc hp).1 hplan
  obtain ⟨m, hm, rfl⟩ := Engine.schedule_eq_ok.1 hresult
  obtain ⟨due, -, rfl⟩ := Parameters.update_eq_ok.1 hm
  refine ⟨c.memory.reps, p.attemptCount, hreps, hattempts, ?_, fun id => ?_, fun i hi => ?_⟩
  · exact Tally.reps?_record h.record
  · exact Tally.attempts?_record id h.record
  · exact Tally.logs_record h.record hi

end SubmitCall

/-- A store that two submissions share, each of them somewhere between its store operations. -/
structure SharedStore (σ : Type) where
  store : σ
  stage : Bool → Submission

namespace SharedStore

variable {σ : Type} [ReviewStore σ] (calls : Bool → SubmitCall)

/-- Neither of the submissions has done anything. -/
def start (store : σ) : SharedStore σ :=
  ⟨store, fun _ => .atConcept⟩

/-- One of the submissions does its next store operation. -/
def turn (s : SharedStore σ) (who : Bool) : SharedStore σ :=
  let next := (calls who).act (s.store, s.stage who)
  ⟨next.1, fun other => if other = who then next.2 else s.stage other⟩

/-- The submissions take turns in a given order. A turn of one that has ended changes nothing. -/
def run (s : SharedStore σ) (schedule : List Bool) : SharedStore σ :=
  schedule.foldl (turn calls) s

/-- Both submissions have succeeded. -/
def Succeeded (s : SharedStore σ) : Prop :=
  ∀ who, ∃ outcome, s.stage who = .done (.ok outcome)

variable {calls}

/-! ## The order of turns -/

/-- As long as both submissions look records up, they see the same store. -/
theorem run_of_count_le {store : σ} {schedule : List Bool} :
    (∀ who, schedule.count who ≤ 2) → (start store).run calls schedule =
      ⟨store, fun who => (calls who).stageAt store (schedule.count who)⟩ := by
  induction schedule using List.reverseRecOn with
  | nil => exact fun _ => rfl
  | append_singleton schedule who ih =>
    intro h
    simp only [List.count_append, List.count_singleton] at h
    have hcount : schedule.count who < 2 := by simpa [Nat.lt_iff_add_one_le] using h who
    have hprev : ∀ other, schedule.count other ≤ 2 := fun other => by
      have := h other
      omega
    have hrun : (start store).run calls (schedule ++ [who]) =
        ((start store).run calls schedule).turn calls who := List.foldl_append
    rw [hrun, ih hprev]
    simp only [turn, SubmitCall.fst_act_stageAt store hcount, SharedStore.mk.injEq, true_and]
    funext other
    by_cases ho : other = who
    · subst ho
      simp [SubmitCall.stageAt]
    · simp [ho, Ne.symm ho]

/-- If one of them has three turns, then there is one that is the first to have them. -/
theorem exists_third_turn {schedule : List Bool} {who : Bool} (h : 3 ≤ schedule.count who) :
    ∃ first before after, schedule = before ++ first :: after ∧
      before.count first = 2 ∧ before.count (!first) ≤ 2 := by
  induction schedule using List.reverseRecOn generalizing who with
  | nil => simp at h
  | append_singleton schedule last ih =>
    by_cases hmore : ∃ other, 3 ≤ schedule.count other
    · obtain ⟨other, hother⟩ := hmore
      obtain ⟨first, before, after, rfl, hfirst, hsecond⟩ := ih hother
      exact ⟨first, before, after ++ [last], by simp, hfirst, hsecond⟩
    · have hle : ∀ other, schedule.count other ≤ 2 := fun other =>
        Nat.le_of_lt_succ (Nat.lt_of_not_le fun hother => hmore ⟨other, hother⟩)
      rw [List.count_append, List.count_singleton] at h
      have hwho : last = who := by
        by_contra hne
        have := hle who
        simp only [beq_iff_eq, hne, if_false] at h
        omega
      subst hwho
      refine ⟨last, schedule, [], rfl, ?_, hle _⟩
      have := hle last
      simp only [beq_self_eq_true, if_true] at h
      omega

/-- After one submission has ended, only the turns of the other one count. -/
theorem run_of_done {who : Bool} {result : Except SubmitError SubmitOutcome}
    {schedule : List Bool} {s : SharedStore σ} (h : s.stage who = .done result) :
    let next := (calls !who).act^[schedule.count !who] (s.store, s.stage !who)
    s.run calls schedule = ⟨next.1, fun other => if other = who then .done result else next.2⟩ := by
  induction schedule generalizing s with
  | nil =>
    show s = ⟨s.store, fun other => if other = who then .done result else s.stage !who⟩
    obtain ⟨store, stage⟩ := s
    simp only [SharedStore.mk.injEq, true_and]
    funext other
    cases who <;> cases other <;> simp_all
  | cons other schedule ih =>
    by_cases ho : other = who
    · -- A turn of the submission that has ended.
      subst ho
      have hturn : s.turn calls other = s := by
        obtain ⟨store, stage⟩ := s
        simp only at h
        simp only [turn, h, SubmitCall.act_done, SharedStore.mk.injEq, true_and]
        funext w
        by_cases hw : w = other <;> simp [hw, h]
      have hne : other ≠ !other := by cases other <;> decide
      show (s.turn calls other).run calls schedule = _
      rw [hturn, List.count_cons_of_ne hne]
      exact ih h
    · obtain rfl : other = !who := by cases who <;> cases other <;> simp_all
      have hstage : (s.turn calls !who).stage who = .done result := by
        show (if who = !who then _ else s.stage who) = _
        rw [if_neg (by cases who <;> decide), h]
      show (s.turn calls !who).run calls schedule = _
      rw [ih hstage, List.count_cons_self]
      simp [turn, Function.iterate_succ_apply]

theorem not_succeeded_of_count_le {store : σ} {schedule : List Bool}
    (h : ∀ who, schedule.count who ≤ 2) : ¬ ((start store).run calls schedule).Succeeded := by
  intro hs
  obtain ⟨outcome, ho⟩ := hs true
  rw [run_of_count_le h] at ho
  exact SubmitCall.stageAt_ne_ok store (h true) outcome ho

/-- The third turn ends a submission. -/
theorem exists_done_act_stageAt_two (call : SubmitCall) (store : σ) :
    ∃ result, (call.act (store, call.stageAt store 2)).2 = .done result := by
  have hstage : call.stageAt store 2 = (call.act (store, Submission.afterConcept call.request
    (ReviewStore.concept? store call.request.conceptId))).2 := rfl
  rw [hstage]
  rcases ReviewStore.concept? store call.request.conceptId with e | _ | c
  · exact ⟨_, rfl⟩
  · exact ⟨_, rfl⟩
  · show ∃ result, (call.act (store, Submission.afterPhrasing call.parameters.engine call.request
      call.now call.interactionId c
      (ReviewStore.phrasing? store call.request.phrasingId))).2 = .done result
    rcases ReviewStore.phrasing? store call.request.phrasingId with e | _ | p
    · exact ⟨_, rfl⟩
    · exact ⟨_, rfl⟩
    · rcases hplan : planReview call.parameters.engine call.request call.now call.interactionId c p
        with e | ⟨patch, planned⟩
      · simp [Submission.afterPhrasing, hplan, SubmitCall.act, Submission.step]
      · rcases hrecord : ReviewStore.record store patch with e | store' <;>
          simp [Submission.afterPhrasing, hplan, SubmitCall.act, Submission.step, hrecord]

/-- Of two submissions that succeed, the one with the first third turn records on the store as it
    was, and the other one on what that has left. -/
theorem exists_recorded_of_succeeded {store : σ} {schedule : List Bool}
    (h : ((start store).run calls schedule).Succeeded) :
    ∃ first before after written, schedule = before ++ first :: after ∧
      before.count first = 2 ∧ before.count (!first) ≤ 2 ∧
      (∃ c p patch, (calls first).Recorded store store store written c p patch) ∧
      ∃ c p patch, (calls !first).Recorded
        (if before.count (!first) = 0 then written else store)
        (if before.count (!first) ≤ 1 then written else store)
        written ((start store).run calls schedule).store c p patch := by
  have hthree : ∃ who, 3 ≤ schedule.count who := by
    by_contra hno
    exact not_succeeded_of_count_le
      (fun who => Nat.le_of_lt_succ (Nat.lt_of_not_le fun hwho => hno ⟨who, hwho⟩)) h
  obtain ⟨who, hwho⟩ := hthree
  obtain ⟨first, before, after, rfl, hfirst, hsecond⟩ := exists_third_turn hwho
  have hcount : ∀ other, before.count other ≤ 2 := fun other => by
    cases first <;> cases other <;> simp_all
  have hne : (!first) ≠ first := by cases first <;> decide
  obtain ⟨result, hresult⟩ := exists_done_act_stageAt_two (calls first) store
  -- The first submission ends in its third turn; afterwards only the other one goes on.
  have hrun : (start store).run calls (before ++ first :: after) =
      (((start store).run calls before).turn calls first).run calls after := by
    simp [run]
  rw [run_of_count_le hcount] at hrun
  have hdone : (SharedStore.turn calls ⟨store, fun who =>
      (calls who).stageAt store (before.count who)⟩ first).stage first = .done result := by
    simp [turn, hfirst, hresult]
  rw [run_of_done hdone] at hrun
  rw [hrun] at h
  obtain ⟨outcome, ho⟩ := h first
  obtain ⟨outcome', ho'⟩ := h !first
  simp only [if_true, if_neg hne] at ho ho'
  refine ⟨first, before, after, ((calls first).act (store, (calls first).stageAt store 2)).1, rfl,
    hfirst, hsecond, ?_, ?_⟩
  · exact SubmitCall.exists_recorded (n := 1) (k := 2) (Nat.le_refl 2)
      (Prod.ext rfl (hresult.trans ho))
  · rw [hrun]
    simp only [turn, hfirst, if_neg hne] at ho' ⊢
    exact SubmitCall.exists_recorded (n := after.count !first) hsecond (Prod.ext rfl ho')

/-! ## What is left behind -/

/-- How many of two answers the attempts of a phrasing count. Of two answers to the phrasing, the
    earlier one is overwritten if the later one has looked the phrasing up before. -/
def countedAttempts (calls : Bool → SubmitCall) (earlier : Bool) (ahead : Nat) (id : String) :
    Nat :=
  if (calls earlier).request.phrasingId = id then
    if (calls !earlier).request.phrasingId = id then if ahead ≤ 1 then 2 else 1 else 1
  else if (calls !earlier).request.phrasingId = id then 1 else 0

/-- What two answers about one concept have left behind, given the one that was recorded earlier
    and the number of store operations that the other one was ahead by then. Both are logged. The
    concept counts both if the later one had not looked it up yet, and one of them otherwise. -/
structure Accounted [Tally σ] (calls : Bool → SubmitCall) (store final : σ) (earlier : Bool)
    (ahead : Nat) : Prop where
  logs : ∀ who, Tally.Logs final (calls who).interaction
  logs_mono : ∀ i, Tally.Logs store i → Tally.Logs final i
  reps : ∃ n, Tally.reps? store (calls earlier).request.conceptId = some n ∧
    Tally.reps? final (calls earlier).request.conceptId =
      some (if ahead = 0 then n + 2 else n + 1)
  attempts : ∀ id, Tally.attempts? final id =
    (Tally.attempts? store id).map countUp^[countedAttempts calls earlier ahead id]

/-- Whatever the order of the store operations of two submissions about one concept, if both
    succeed, then their answers are accounted for by what the one that is recorded later has looked
    up before the other one's record. -/
def AccountsForBoth (σ : Type) [ReviewStore σ] [Tally σ] : Prop :=
  ∀ (store : σ) (calls : Bool → SubmitCall) (schedule : List Bool),
    (calls false).request.conceptId = (calls true).request.conceptId →
    ((start store).run calls schedule).Succeeded →
    ∃ earlier before after, schedule = before ++ earlier :: after ∧
      before.count earlier = 2 ∧ before.count (!earlier) ≤ 2 ∧
      Accounted calls store ((start store).run calls schedule).store earlier
        (before.count !earlier)

section Counted

variable [Tally σ] {store written final : σ} {first : Bool} {ahead : Nat}
  {reps attempts reps' attempts' : UInt32}

theorem reps?_of_counted (h : (calls first).Counted reps attempts store written)
    (h' : (calls !first).Counted reps' attempts' written final)
    (hsame : (calls !first).request.conceptId = (calls first).request.conceptId)
    (hreps : Tally.reps? store (calls first).request.conceptId = some reps)
    (hreps' : Tally.reps? (if ahead = 0 then written else store) (calls !first).request.conceptId =
      some reps') :
    Tally.reps? final (calls first).request.conceptId =
      some (if ahead = 0 then reps + 2 else reps + 1) := by
  rw [← hsame, h'.reps]
  rw [hsame] at hreps'
  by_cases hahead : ahead = 0
  · rw [if_pos hahead, h.reps, Option.some.injEq] at hreps'
    rw [if_pos hahead, ← hreps', UInt32.add_assoc]
    rfl
  · rw [if_neg hahead, hreps, Option.some.injEq] at hreps'
    rw [if_neg hahead, hreps']

/-- The attempts that the later answer has looked up are the ones that it counts on from, if both
    answers are to one phrasing; otherwise each phrasing is counted for its own answer. -/
theorem attempts?_of_counted (h : (calls first).Counted reps attempts store written)
    (h' : (calls !first).Counted reps' attempts' written final)
    (hattempts : Tally.attempts? store (calls first).request.phrasingId = some attempts)
    (hattempts' : Tally.attempts? (if ahead ≤ 1 then written else store)
      (calls !first).request.phrasingId = some attempts') (id : String) :
    Tally.attempts? final id =
      (Tally.attempts? store id).map countUp^[countedAttempts calls first ahead id] := by
  have hwritten := h.attempts
  rw [h'.attempts]
  unfold countedAttempts
  by_cases hlater : (calls !first).request.phrasingId = id
  · subst hlater
    rw [if_pos rfl, if_pos rfl, if_pos rfl]
    by_cases hearlier : (calls first).request.phrasingId = (calls !first).request.phrasingId
    · -- Both answers are to one phrasing.
      rw [if_pos hearlier]
      rw [← hearlier] at hattempts' ⊢
      by_cases hahead : ahead ≤ 1
      · rw [if_pos hahead, hwritten, if_pos rfl, Option.some.injEq] at hattempts'
        rw [if_pos hahead, hattempts, ← hattempts']
        rfl
      · rw [if_neg hahead, hattempts, Option.some.injEq] at hattempts'
        rw [if_neg hahead, hattempts, hattempts']
        rfl
    · -- The earlier answer has left this phrasing as it was, whenever it is looked up.
      have hstore : Tally.attempts? store (calls !first).request.phrasingId = some attempts' := by
        by_cases hahead : ahead ≤ 1
        · rw [if_pos hahead, hwritten, if_neg (Ne.symm hearlier)] at hattempts'
          exact hattempts'
        · rw [if_neg hahead] at hattempts'
          exact hattempts'
      rw [if_neg hearlier, hstore]
      rfl
  · rw [if_neg (Ne.symm hlater), if_neg hlater, if_neg hlater, hwritten]
    by_cases hearlier : (calls first).request.phrasingId = id
    · subst hearlier
      rw [if_pos rfl, if_pos rfl, hattempts]
      rfl
    · rw [if_neg (Ne.symm hearlier), if_neg hearlier]
      simp

end Counted

theorem accountsForBoth [Tally σ] : AccountsForBoth σ := by
  intro store calls schedule hsame hs
  obtain ⟨first, before, after, written, hschedule, hfirst, hsecond, ⟨_, _, _, hrecorded⟩,
    ⟨_, _, _, hrecorded'⟩⟩ := exists_recorded_of_succeeded hs
  obtain ⟨reps, attempts, hreps, hattempts, hcounted⟩ := hrecorded.counted
  obtain ⟨reps', attempts', hreps', hattempts', hcounted'⟩ := hrecorded'.counted
  have hconcept : (calls !first).request.conceptId = (calls first).request.conceptId := by
    cases first
    · exact hsame.symm
    · exact hsame
  refine ⟨first, before, after, hschedule, hfirst, hsecond, ?_⟩
  refine ⟨fun who => ?_, fun i hi => hcounted'.logs i (.inl (hcounted.logs i (.inl hi))), ?_, ?_⟩
  · by_cases hwho : who = first
    · subst hwho
      exact hcounted'.logs _ (.inl (hcounted.logs _ (.inr rfl)))
    · obtain rfl : who = !first := by cases who <;> cases first <;> simp_all
      exact hcounted'.logs _ (.inr rfl)
  · exact ⟨reps, hreps, reps?_of_counted hcounted hcounted' hconcept hreps hreps'⟩
  · exact attempts?_of_counted hcounted hcounted' hattempts hattempts'

/-- In both stores, two answers about one concept that are written at the same time are both logged,
    but the later record overwrites the counts that its submission had looked up before. -/
theorem accounted_of_overlap : AccountsForBoth VolatileStore ∧ AccountsForBoth DatabaseStore :=
  ⟨accountsForBoth, accountsForBoth⟩

/-- A concept with one phrasing, and two right answers to it. -/
def contested : VolatileStore × (Bool → SubmitCall) :=
  (⟨[.create "c" "title" (.fresh .epoch) .epoch],
    [.create "p" "c" "question" "answer" .epoch], []⟩,
    fun who => ⟨.standard, ⟨"c", "p", "answer", true, 5, none⟩, .epoch, if who then "i" else "j"⟩)

/-- Of two answers to one phrasing, the second one finds the concept as it was, but the phrasing as
    the first one has left it. -/
theorem accounted_of_late_look_up :
    let store := contested.1
    let calls := contested.2
    let schedule := [false, false, true, false, true, true]
    let s := (start store).run calls schedule
    s.Succeeded ∧ ∃ earlier before after, schedule = before ++ earlier :: after ∧
      before.count earlier = 2 ∧ before.count (!earlier) ≤ 2 ∧
      Accounted calls store s.store earlier (before.count !earlier) := by
  intro store calls schedule s
  have hs : s.Succeeded := fun who => by cases who <;> exact ⟨_, rfl⟩
  exact ⟨hs, accounted_of_overlap.1 store calls schedule rfl hs⟩

/-- Both of two answers to one phrasing are written, and neither the concept nor the phrasing counts
    more than one of them. -/
theorem reps_eq_one_of_overlap :
    let store := contested.1
    let s := (start store).run contested.2 [false, false, true, true, true, false]
    s.Succeeded ∧
      Tally.reps? store "c" = some 0 ∧ Tally.reps? s.store "c" = some 1 ∧
      Tally.attempts? store "p" = some 0 ∧ Tally.attempts? s.store "p" = some 1 := by
  intro store s
  refine ⟨fun who => ?_, rfl, rfl, rfl, rfl⟩
  cases who <;> exact ⟨_, rfl⟩

end SharedStore

end SpacedReview
