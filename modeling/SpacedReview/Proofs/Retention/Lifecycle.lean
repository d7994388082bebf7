import Mathlib.Data.List.Induction
import SpacedReview.Proofs.Retention.Delays

/-!
# The life of a memory

A memory starts fresh and is updated by one rated answer after another, at any times. Along every
such run it counts its answers and its lapses, it remembers the last answer, and the delay until the
next review is the one of its learning state: whole days in review, and otherwise a delay made of
the steps of that state.

## Main definitions

- `Engine.memoryAfter` — the memory after a run of answers
- `Engine.lapsesAmong` — how often a run forgets a concept in review
- `IsStepDelay` — the delays that a list of steps can lead to
- `Parameters.Counts` — the memory counts the answers of a run and its lapses
- `Parameters.Schedules` — the memory was last updated at an instant and is due when its state says

## Main statements

- `Parameters.transition_cases` — where an answer can lead
- `Parameters.counts_and_schedules_of_memoryAfter` — what holds after every run
-/

namespace SpacedReview

/-- An answer as it is rated, and when it was given. -/
structure RatedAnswer where
  rating : Rating
  time : Instant

/-! ## Runs of answers -/

namespace Engine

variable {e : Engine} {m m' : MemoryState}

/-- The memory after answers that were given one after the other. -/
def memoryAfter (e : Engine) (m : MemoryState) : List RatedAnswer → Except ScheduleError MemoryState
  | [] => .ok m
  | a :: rest => do
    let m ← e.update m a.rating a.time
    e.memoryAfter m rest

/-- The number of answers that find the concept in review and forget it. -/
def lapsesAmong (e : Engine) (m : MemoryState) : List RatedAnswer → Nat
  | [] => 0
  | a :: rest =>
    (if m.state = .review ∧ a.rating = .again then 1 else 0) +
      match e.update m a.rating a.time with
      | .ok m => e.lapsesAmong m rest
      | .error _ => 0

/-- The last answer is given to the memory that all others have left. -/
theorem memoryAfter_concat {earlier : List RatedAnswer} {last : RatedAnswer} :
    e.memoryAfter m (earlier ++ [last]) = .ok m' ↔
      ∃ before, e.memoryAfter m earlier = .ok before ∧
        e.update before last.rating last.time = .ok m' := by
  induction earlier generalizing m with
  | nil =>
    simp only [List.nil_append, memoryAfter, bind_eq_ok, Except.ok.injEq]
    constructor
    · rintro ⟨_, hupdate, rfl⟩
      exact ⟨m, rfl, hupdate⟩
    · rintro ⟨_, rfl, hupdate⟩
      exact ⟨m', hupdate, rfl⟩
  | cons a rest ih =>
    simp only [List.cons_append, memoryAfter, bind_eq_ok, ih]
    constructor
    · rintro ⟨next, hnext, before, hbefore, hupdate⟩
      exact ⟨before, ⟨next, hnext, hbefore⟩, hupdate⟩
    · rintro ⟨before, ⟨next, hnext, hbefore⟩, hupdate⟩
      exact ⟨next, hnext, before, hbefore, hupdate⟩

theorem lapsesAmong_concat {earlier : List RatedAnswer} {last : RatedAnswer}
    (h : e.memoryAfter m earlier = .ok m') :
    e.lapsesAmong m (earlier ++ [last]) = e.lapsesAmong m earlier +
      if m'.state = .review ∧ last.rating = .again then 1 else 0 := by
  induction earlier generalizing m with
  | nil =>
    obtain rfl := Except.ok.inj h
    simp only [List.nil_append, lapsesAmong, Nat.zero_add]
    cases e.update m last.rating last.time with
    | ok _ => rfl
    | error _ => rfl
  | cons a rest ih =>
    obtain ⟨next, hnext, hrest⟩ := bind_eq_ok.1 h
    simp only [List.cons_append, lapsesAmong, hnext, ih hrest, Nat.add_assoc]

end Engine

/-! ## Where an answer leads -/

/-- A delay in seconds that is made of a list of steps in minutes: the first step, the second one,
    one and a half of a single step, or half way between the first two. -/
inductive IsStepDelay : List UInt32 → Nat → Prop
  | first (step : UInt32) (rest : List UInt32) : IsStepDelay (step :: rest) (step.toNat * 60)
  | second (first step : UInt32) (rest : List UInt32) :
      IsStepDelay (first :: step :: rest) (step.toNat * 60)
  | oneAndAHalf (only : UInt32) : IsStepDelay [only] (only.toNat * 60 * 3 / 2)
  | halfWay (first second : UInt32) (rest : List UInt32) :
      IsStepDelay (first :: second :: rest) ((first.toNat * 60 + second.toNat * 60) / 2)

theorem IsStepDelay.ne_nil {steps : List UInt32} {delay : Nat} (h : IsStepDelay steps delay) :
    steps ≠ [] := by
  rintro rfl
  cases h

namespace Parameters

variable {p : Parameters} {steps : List UInt32} {delay : Nat}

theorem isStepDelay_of_stepDelay? {index : Nat} (hindex : index ≤ 1)
    (h : stepDelay? steps index = some delay) : IsStepDelay steps delay := by
  obtain ⟨minutes, hminutes, rfl⟩ := Option.map_eq_some_iff.1 h
  match steps, index with
  | [], _ => simp at hminutes
  | first :: rest, 0 =>
    obtain rfl := Option.some.inj hminutes
    exact .first _ _
  | [only], 1 => simp at hminutes
  | first :: second :: rest, 1 =>
    obtain rfl := Option.some.inj hminutes
    exact .second _ _ _
  | _, index + 2 => omega

theorem isStepDelay_of_hardDelay? (h : hardDelay? steps = some delay) :
    IsStepDelay steps delay := by
  match steps with
  | [] => simp [hardDelay?] at h
  | [only] =>
    obtain rfl := Option.some.inj h
    have hdelay : only.toNat * 90 = only.toNat * 60 * 3 / 2 := by omega
    rw [hdelay]
    exact .oneAndAHalf only
  | first :: second :: rest =>
    obtain rfl := Option.some.inj h
    have hdelay : (first.toNat + second.toNat) * 30 =
        (first.toNat * 60 + second.toNat * 60) / 2 := by omega
    rw [hdelay]
    exact .halfWay first second rest

/-- A short step stays with the steps of the state that it leads to, and it leads to relearning only
    from there or from what was forgotten in review. -/
theorem shortStep_cases {state next : LearningState} {rating : Rating}
    (h : p.shortStep? state rating = some (next, delay)) :
    next = .learning ∧ IsStepDelay p.learningSteps delay ∨
    next = .relearning ∧ IsStepDelay p.relearningSteps delay ∧
      (state = .relearning ∨ state = .review ∧ rating = .again) := by
  unfold shortStep? at h
  split at h
  all_goals
    first
    | cases h
    | obtain ⟨_, hdelay, heq⟩ := Option.map_eq_some_iff.1 h
      cases heq
  -- First the steps of learning, then those of relearning, as in the table of short steps.
  · exact .inl ⟨rfl, isStepDelay_of_stepDelay? (by omega) hdelay⟩
  · exact .inl ⟨rfl, isStepDelay_of_stepDelay? (by omega) hdelay⟩
  · exact .inl ⟨rfl, isStepDelay_of_hardDelay? hdelay⟩
  · exact .inl ⟨rfl, isStepDelay_of_hardDelay? hdelay⟩
  · exact .inl ⟨rfl, isStepDelay_of_stepDelay? (by omega) hdelay⟩
  · exact .inr ⟨rfl, isStepDelay_of_stepDelay? (by omega) hdelay, .inl rfl⟩
  · exact .inr ⟨rfl, isStepDelay_of_stepDelay? (by omega) hdelay, .inr ⟨rfl, rfl⟩⟩
  · exact .inr ⟨rfl, isStepDelay_of_hardDelay? hdelay, .inl rfl⟩

/-- An answer leads into review for whole days, or to a delay made of the steps of learning or
    relearning. -/
theorem transition_cases (p : Parameters) (state : LearningState) (rating : Rating)
    (stability : Float) :
    p.transition state rating stability =
      (.review, p.intervalDays stability * Instant.secondsPerDay) ∨
    ∃ next delay, p.transition state rating stability = (next, delay) ∧
      (next = .learning ∧ IsStepDelay p.learningSteps delay ∨
        next = .relearning ∧ IsStepDelay p.relearningSteps delay ∧
          (state = .relearning ∨ state = .review ∧ rating = .again)) := by
  unfold transition
  cases hshort : p.shortStep? state rating with
  | none => exact .inl rfl
  | some step =>
    obtain ⟨next, delay⟩ := step
    exact .inr ⟨next, delay, rfl, shortStep_cases hshort⟩

/-! ## After one answer -/

/-- The memory was last updated at an instant. It is not new. In review it is due whole days later,
    at least one and at most the longest interval, and in learning and relearning after a delay made
    of the steps of that state, of which there are some. -/
structure Schedules (p : Parameters) (now : Instant) (m : MemoryState) : Prop where
  lastReview : m.lastReview = some now
  state_ne_new : m.state ≠ .new
  review : m.state = .review → ∃ days, 1 ≤ days ∧ days ≤ max 1 p.maximumInterval.toNat ∧
    now.after? (days * Instant.secondsPerDay) = some m.nextReview
  learning : m.state = .learning → ∃ delay, IsStepDelay p.learningSteps delay ∧
    now.after? delay = some m.nextReview
  relearning : m.state = .relearning → p.relearningSteps ≠ [] ∧
    ∃ delay, IsStepDelay p.relearningSteps delay ∧ now.after? delay = some m.nextReview
  not_before : now ≤ m.nextReview

theorem schedules_of_update {m m' : MemoryState} {rating : Rating} {now : Instant}
    (h : p.update m rating now = .ok m') : p.Schedules now m' := by
  obtain ⟨due, hdue, rfl⟩ := update_eq_ok.1 h
  have hle := Instant.le_of_after? hdue
  rcases p.transition_cases m.state rating (p.nextStability m rating now) with
    hstep | ⟨next, delay, hstep, ⟨rfl, hdelay⟩ | ⟨rfl, hdelay, -⟩⟩
  · rw [hstep] at hdue ⊢
    have hdays := p.intervalDays_bounds (p.nextStability m rating now)
    refine ⟨rfl, by simp, fun _ => ⟨_, hdays.1, by omega, hdue⟩, by simp, by simp, hle⟩
  · rw [hstep] at hdue ⊢
    exact ⟨rfl, by simp, by simp, fun _ => ⟨delay, hdelay, hdue⟩, by simp, hle⟩
  · rw [hstep] at hdue ⊢
    exact ⟨rfl, by simp, by simp, by simp, fun _ => ⟨hdelay.ne_nil, delay, hdelay, hdue⟩, hle⟩

/-! ## After a run -/

/-- The memory counts the answers of a run, and among them those that forgot it in review, of which
    there was one if it is relearned. -/
structure Counts (p : Parameters) (start : Instant) (answers : List RatedAnswer)
    (m : MemoryState) : Prop where
  reps : m.reps.toNat = answers.length
  lapses : m.lapses.toNat = p.engine.lapsesAmong (p.engine.start start) answers
  lapses_le : m.lapses.toNat ≤ answers.length - 1
  state : m.state = .new ↔ answers = []
  relearning : m.state = .relearning → 1 ≤ m.lapses.toNat

variable {start : Instant} {earlier : List RatedAnswer} {last : RatedAnswer} {m m' : MemoryState}

theorem counts_start (p : Parameters) (start : Instant) :
    p.Counts start [] (p.engine.start start) where
  reps := rfl
  lapses := rfl
  lapses_le := Nat.le_refl 0
  state := iff_of_true rfl rfl
  relearning := by simp [engine, MemoryState.fresh]

/-- One more answer is counted, as long as the counters do not come to their ends. -/
theorem Counts.concat (h : p.Counts start earlier m)
    (hrun : p.engine.memoryAfter (p.engine.start start) earlier = .ok m)
    (hlength : earlier.length + 1 < UInt32.size)
    (hupdate : p.update m last.rating last.time = .ok m') :
    p.Counts start (earlier ++ [last]) m' := by
  have hschedules := schedules_of_update hupdate
  obtain ⟨due, -, rfl⟩ := update_eq_ok.1 hupdate
  have hsize : UInt32.size = 4294967296 := rfl
  have hle := h.lapses_le
  -- What is forgotten in review was answered before, so there are fewer lapses than answers.
  have hlapses : (if m.state = .review ∧ last.rating = .again then m.lapses + 1
      else m.lapses).toNat = m.lapses.toNat +
        if m.state = .review ∧ last.rating = .again then 1 else 0 := by
    by_cases hforgot : m.state = .review ∧ last.rating = .again
    · rw [if_pos hforgot, if_pos hforgot, UInt32.toNat_add, UInt32.toNat_one,
        Nat.mod_eq_of_lt (by omega)]
    · rw [if_neg hforgot, if_neg hforgot, Nat.add_zero]
  have hanswered : m.state = .review → 0 < earlier.length := by
    intro hreview
    apply List.length_pos_iff.2
    intro hnil
    rw [h.state.2 hnil] at hreview
    cases hreview
  refine ⟨?_, ?_, ?_, iff_of_false hschedules.state_ne_new (by simp), ?_⟩
  · show (m.reps + 1).toNat = _
    have hreps := h.reps
    rw [UInt32.toNat_add, UInt32.toNat_one, Nat.mod_eq_of_lt (by omega), hreps,
      List.length_append, List.length_singleton]
  · rw [Engine.lapsesAmong_concat hrun, ← h.lapses]
    exact hlapses
  · rw [List.length_append, List.length_singleton]
    show (if _ then _ else _ : UInt32).toNat ≤ _
    rw [hlapses]
    split
    · rename_i hforgot
      have hpos := hanswered hforgot.1
      omega
    · omega
  · intro hrelearning
    show 1 ≤ (if _ then _ else _ : UInt32).toNat
    rw [hlapses]
    rcases p.transition_cases m.state last.rating (p.nextStability m last.rating last.time) with
      hstep | ⟨next, delay, hstep, ⟨rfl, -⟩ | ⟨rfl, -, hfrom⟩⟩
    · simp [hstep] at hrelearning
    · simp [hstep] at hrelearning
    · rcases hfrom with hstill | hforgot
      · have hone := h.relearning hstill
        omega
      · rw [if_pos hforgot]
        omega

theorem counts_of_memoryAfter {answers : List RatedAnswer} (hlength : answers.length < UInt32.size)
    (hrun : p.engine.memoryAfter (p.engine.start start) answers = .ok m) :
    p.Counts start answers m := by
  induction answers using List.reverseRecOn generalizing m with
  | nil =>
    obtain rfl := Except.ok.inj hrun
    exact p.counts_start start
  | append_singleton earlier last ih =>
    obtain ⟨before, hbefore, hupdate⟩ := Engine.memoryAfter_concat.1 hrun
    rw [List.length_append, List.length_singleton] at hlength
    exact (ih (by omega) hbefore).concat hbefore hlength hupdate

/-- Whatever the parameters are, after every run of answers at any times the memory counts them, and
    it is due as its state and the last answer say. -/
theorem counts_and_schedules_of_memoryAfter (p : Parameters) (start : Instant)
    (answers : List RatedAnswer) (last : RatedAnswer) (m : MemoryState)
    (hlast : answers.getLast? = some last) (hlength : answers.length < UInt32.size)
    (hrun : p.engine.memoryAfter (p.engine.start start) answers = .ok m) :
    p.Counts start answers m ∧ p.Schedules last.time m := by
  refine ⟨counts_of_memoryAfter hlength hrun, ?_⟩
  obtain ⟨earlier, rfl⟩ := List.getLast?_eq_some_iff.1 hlast
  obtain ⟨before, -, hupdate⟩ := Engine.memoryAfter_concat.1 hrun
  exact schedules_of_update hupdate

/-- No answer leaves the range of instants if steps and intervals are short enough and the last
    century of the range has not begun. -/
theorem exists_memoryAfter
    (hsteps : ∀ minutes ∈ p.learningSteps ++ p.relearningSteps, minutes ≤ 1440)
    (hinterval : p.maximumInterval ≤ 36500) {answers : List RatedAnswer}
    (htimes : ∀ a ∈ answers, a.time.second + 3153600000 ≤ Instant.lastSecond) (m : MemoryState) :
    ∃ m', p.engine.memoryAfter m answers = .ok m' := by
  induction answers generalizing m with
  | nil => exact ⟨m, rfl⟩
  | cons a rest ih =>
    obtain ⟨htime, hrest⟩ := List.forall_mem_cons.1 htimes
    obtain ⟨next, hnext⟩ := exists_update hsteps hinterval htime m a.rating
    obtain ⟨m', hm'⟩ := ih hrest next
    exact ⟨m', bind_eq_ok.2 ⟨next, hnext, hm'⟩⟩

/-- The concept goes into review, is forgotten at once and is answered again at an earlier time. -/
theorem counts_and_schedules_of_lapse :
    let answers : List RatedAnswer := [⟨.easy, (Instant.of? 60 0).get rfl⟩,
      ⟨.again, (Instant.of? 60 0).get rfl⟩, ⟨.hard, .epoch⟩]
    answers.getLast? = some ⟨.hard, .epoch⟩ ∧ answers.length < UInt32.size ∧
      ∃ m, standard.engine.memoryAfter (standard.engine.start .epoch) answers = .ok m ∧
        standard.Counts .epoch answers m ∧ standard.Schedules .epoch m := by
  intro answers
  have htimes : ∀ a ∈ answers, a.time.second + 3153600000 ≤ Instant.lastSecond := by decide
  have hsteps : ∀ minutes ∈ standard.learningSteps ++ standard.relearningSteps,
      minutes ≤ 1440 := by
    simp [standard]
  obtain ⟨m, hm⟩ := exists_memoryAfter hsteps (by decide) htimes (standard.engine.start .epoch)
  exact ⟨rfl, by decide, m, hm, counts_and_schedules_of_memoryAfter standard .epoch answers
    ⟨.hard, .epoch⟩ m rfl (by decide) hm⟩

end Parameters

end SpacedReview
