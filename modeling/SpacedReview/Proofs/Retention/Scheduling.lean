import SpacedReview.Proofs.Retention.Lifecycle

/-!
# What an answer schedules

As long as the next review lies in the range of instants, every answer to every concept is
scheduled, whatever the parameters and the memory hold. The concept is due a delay after the answer,
so never before it, and the scheduled days are the whole days of that delay: the interval in review,
and none if the delay is shorter than a day.

A wrong answer leads to a first step or, without steps, to the same interval as a right one. So it
puts the next review off no longer than a right one if the first steps fit into a day and the second
step of learning is no shorter than the first.

## Main definitions

- `Parameters.delayAfter` — the delay that an answer leads to
- `Parameters.Arranges` — what scheduling an answer comes to
- `Parameters.StepsInOrder` — the first steps fit into a day, and the second ones are no shorter

## Main statements

- `Parameters.arranges_of_inRange` — every answer is scheduled
- `Parameters.wrong_le_right` — a wrong answer is due no later than a right one
-/

namespace SpacedReview

namespace Instant

variable {t due due' : Instant} {seconds seconds' : Nat}

/-! ## The distance of a delay -/

/-- What comes after a delay is no leap second. -/
theorem nano_of_after? (h : t.after? seconds = some due) (hpos : 0 < seconds) :
    due.nano = t.nano % nanosPerSecond := by
  rw [after?, if_neg (by omega)] at h
  unfold of? at h
  split at h
  · obtain rfl := Option.some.inj h
    rfl
  · cases h

/-- The distance of a delay is the delay. From a leap second it can be a second less, since `since`
    counts the leap second only for a time of day that lies behind it. -/
theorem since_of_after? (h : t.after? seconds = some due) :
    due.since t = (seconds : Int) * 1000000000 ∨
      t.isLeap ∧ 0 < seconds ∧ due.since t = (seconds - 1 : Int) * 1000000000 := by
  rcases Nat.eq_zero_or_pos seconds with rfl | hpos
  · obtain rfl := Option.some.inj h
    exact .inl (by simp [since])
  · have hsecond := second_of_after? h
    have hnano := nano_of_after? h hpos
    have hmod : t.nano % nanosPerSecond < nanosPerSecond := Nat.mod_lt _ (by decide)
    have hbound := t.nano_lt
    have hdue : ¬ due.isLeap := by
      rw [isLeap, hnano]
      exact Nat.not_le.2 hmod
    by_cases hleap : t.isLeap
    · have hback : t.nano % nanosPerSecond = t.nano - 1000000000 ∧ 1000000000 ≤ t.nano := by
        simp only [isLeap, nanosPerSecond] at hleap ⊢
        omega
      by_cases hbehind : t.timeOfDay < due.timeOfDay
      · refine .inl ?_
        rw [since, if_pos ⟨hbehind, hleap⟩, hsecond, hnano, hback.1]
        simp only [nanosPerSecond]
        omega
      · refine .inr ⟨hleap, hpos, ?_⟩
        rw [since, if_neg (fun h => hbehind h.1), if_neg (fun h => hdue h.2), hsecond, hnano,
          hback.1]
        simp only [nanosPerSecond]
        omega
    · have hsame : t.nano % nanosPerSecond = t.nano := Nat.mod_eq_of_lt (Nat.not_le.1 hleap)
      refine .inl ?_
      rw [since, if_neg (fun h => hleap h.2), if_neg (fun h => hdue h.2), hsecond, hnano, hsame]
      simp only [nanosPerSecond]
      omega

theorem lt_of_after?_iff (h : t.after? seconds = some due) : t < due ↔ 0 < seconds := by
  rw [lt_iff, second_of_after? h]
  constructor
  · intro hlt
    by_contra hzero
    obtain rfl : seconds = 0 := by omega
    obtain rfl := Option.some.inj h
    omega
  · intro hpos
    exact .inl (by omega)

/-- A longer delay leads to a later instant at a greater distance. -/
theorem after?_mono (hle : seconds ≤ seconds') (h : t.after? seconds = some due)
    (h' : t.after? seconds' = some due') : due ≤ due' ∧ due.since t ≤ due'.since t := by
  rcases Nat.eq_or_lt_of_le hle with rfl | hlt
  · obtain rfl := Option.some.inj (h.symm.trans h')
    exact ⟨le_iff.2 (.inr ⟨rfl, Nat.le_refl _⟩), Int.le_refl _⟩
  · have hsecond := second_of_after? h
    have hsecond' := second_of_after? h'
    refine ⟨le_iff.2 (.inl (by omega)), ?_⟩
    rcases since_of_after? h with hsince | ⟨-, -, hsince⟩
    · rcases since_of_after? h' with hsince' | ⟨-, -, hsince'⟩
      · omega
      · omega
    · rcases since_of_after? h' with hsince' | ⟨-, -, hsince'⟩
      · omega
      · omega

/-- The whole days of a delay, as they are counted with 32 bits. -/
theorem days_of_after? (hleap : ¬ t.isLeap) (h : t.after? seconds = some due) :
    due.since t = (seconds : Int) * 1000000000 ∧
      (UInt32.ofNat ((due.since t).tdiv 86400000000000).toNat).toNat = seconds / secondsPerDay := by
  have hsince : due.since t = (seconds : Int) * 1000000000 :=
    (since_of_after? h).resolve_right fun h => hleap h.1
  refine ⟨hsince, ?_⟩
  rw [UInt32.toNat_ofNat_of_lt' (days_since_lt due t), hsince,
    Int.tdiv_eq_ediv_of_nonneg (by omega), secondsPerDay]
  omega

end Instant

namespace Parameters

variable {p : Parameters} {m : MemoryState} {now : Instant}

/-- The seconds until the next review after an answer. -/
def delayAfter (p : Parameters) (m : MemoryState) (rating : Rating) (now : Instant) : Nat :=
  (p.transition m.state rating (p.nextStability m rating now)).2

/-- What scheduling an answer comes to. -/
structure Arranges (p : Parameters) (c : Concept) (correct : Bool) (now : Instant)
    (result : ScheduleResult) : Prop where
  /-- The concept is due when the delay is over. -/
  after : now.after? (p.delayAfter c.memory (.ofCorrect correct) now) = some result.dueDate
  not_before : now ≤ result.dueDate
  dueDate : result.dueDate = result.nextReview
  nextReview : result.nextReview = result.memory.nextReview
  lifecycleState : result.lifecycleState = result.memory.state
  /-- A concept that was answered before and is known now goes into review for a day at least. -/
  known : correct → ¬ c.isNew → result.lifecycleState = .review ∧
    ∃ tomorrow, now.after? Instant.secondsPerDay = some tomorrow ∧ tomorrow ≤ result.nextReview
  /-- A concept that is known at once is due later, unless its second step takes no time. -/
  known_at_once : correct → c.isNew → (now < result.nextReview ↔ p.learningSteps[1]? ≠ some 0)
  /-- The scheduled days are the whole days in the nanoseconds until the due date. -/
  scheduledDays :
    (result.scheduledDays.toNat : Int) * 86400000000000 ≤ result.dueDate.since now ∧
    result.dueDate.since now < (result.scheduledDays.toNat + 1 : Int) * 86400000000000
  interval : result.lifecycleState = .review →
    result.scheduledDays.toNat = p.intervalDays result.memory.stability
  same_day : p.delayAfter c.memory (.ofCorrect correct) now < Instant.secondsPerDay →
    result.scheduledDays = 0

/-! ## Where a right answer leads -/

theorem transition_good_of_ne_new {state : LearningState} (h : state ≠ .new) (stability : Float) :
    p.transition state .good stability =
      (.review, p.intervalDays stability * Instant.secondsPerDay) := by
  cases state with
  | new => exact absurd rfl h
  | learning => rfl
  | review => rfl
  | relearning => rfl

/-- A new concept goes on to the second step, or into review if there is none. -/
theorem transition_new_good (p : Parameters) (stability : Float) :
    (∃ second, p.learningSteps[1]? = some second ∧
      p.transition .new .good stability = (.learning, second.toNat * 60)) ∨
    p.learningSteps[1]? = none ∧ p.transition .new .good stability =
      (.review, p.intervalDays stability * Instant.secondsPerDay) := by
  rw [transition]
  simp only [shortStep?, stepDelay?]
  cases p.learningSteps[1]? with
  | some second => exact .inl ⟨second, rfl, rfl⟩
  | none => exact .inr ⟨rfl, rfl⟩

/-- A review comes after the interval of the stability. -/
theorem transition_of_review {state : LearningState} {rating : Rating} {stability : Float}
    (h : (p.transition state rating stability).1 = .review) :
    (p.transition state rating stability).2 =
      p.intervalDays stability * Instant.secondsPerDay := by
  rcases p.transition_cases state rating stability with
    hstep | ⟨next, delay, hstep, ⟨rfl, -⟩ | ⟨rfl, -⟩⟩
  · rw [hstep]
  · simp [hstep] at h
  · simp [hstep] at h

/-! ## One answer -/

/-- What is known goes into review unless it is new. -/
theorem day_le_delayAfter (hnew : ¬ m.isNew) :
    (p.transition m.state .good (p.nextStability m .good now)).1 = .review ∧
      Instant.secondsPerDay ≤ p.delayAfter m .good now := by
  have hstate : m.state ≠ .new := fun h => hnew (decide_eq_true h)
  have hdays := (p.intervalDays_bounds (p.nextStability m .good now)).1
  rw [delayAfter, transition_good_of_ne_new hstate]
  exact ⟨rfl, Nat.le_mul_of_pos_left _ hdays⟩

/-- What is known at once has a delay unless the second step takes no time. -/
theorem delayAfter_pos_iff (hnew : m.isNew) :
    0 < p.delayAfter m .good now ↔ p.learningSteps[1]? ≠ some 0 := by
  have hstate : m.state = .new := of_decide_eq_true hnew
  rw [delayAfter, hstate]
  rcases p.transition_new_good (p.nextStability m .good now) with
    ⟨second, hsecond, hstep⟩ | ⟨hnone, hstep⟩
  · rw [hstep, hsecond, ne_eq, Option.some.injEq, ← UInt32.toNat_inj, UInt32.toNat_zero]
    omega
  · have hdays := (p.intervalDays_bounds (p.nextStability m .good now)).1
    have hpos : 0 < p.intervalDays (p.nextStability m .good now) * Instant.secondsPerDay :=
      Nat.mul_pos hdays (by decide)
    rw [hstep, hnone]
    exact iff_of_true hpos (by simp)

/-- Every answer after which the next review is in range is scheduled, whatever the parameters, the
    memory and the answer are. -/
theorem arranges_of_inRange (p : Parameters) (c : Concept) (correct : Bool) (now : Instant)
    (hleap : ¬ now.isLeap)
    (hrange : now.second + p.delayAfter c.memory (.ofCorrect correct) now ≤ Instant.lastSecond) :
    ∃ result, p.engine.schedule c correct now = .ok result ∧
      p.Arranges c correct now result := by
  obtain ⟨due, hdue⟩ := Instant.exists_after? hrange
  have hupdate := update_eq_ok.2 ⟨due, hdue, rfl⟩
  obtain ⟨hsince, hdays⟩ := Instant.days_of_after? hleap hdue
  refine ⟨_, Engine.schedule_eq_ok.2 ⟨_, hupdate, rfl⟩, hdue, Instant.le_of_after? hdue, rfl, rfl,
    rfl, ?known, ?known_at_once, ?scheduledDays, ?interval, ?same_day⟩
  case known =>
    rintro rfl hnew
    have hday : Instant.secondsPerDay ≤ p.delayAfter c.memory (.ofCorrect true) now :=
      (day_le_delayAfter hnew).2
    obtain ⟨tomorrow, htomorrow⟩ : ∃ tomorrow,
        now.after? Instant.secondsPerDay = some tomorrow := Instant.exists_after? (by omega)
    exact ⟨(day_le_delayAfter hnew).1, tomorrow, htomorrow,
      (Instant.after?_mono hday htomorrow hdue).1⟩
  case known_at_once =>
    rintro rfl hnew
    exact (Instant.lt_of_after?_iff hdue).trans (delayAfter_pos_iff hnew)
  case scheduledDays =>
    show (UInt32.toNat _ : Int) * _ ≤ due.since now ∧ due.since now < (UInt32.toNat _ + 1 : Int) * _
    rw [hdays, hsince, Instant.secondsPerDay]
    omega
  case interval =>
    intro hreview
    show UInt32.toNat _ = _
    rw [hdays, delayAfter, transition_of_review hreview]
    exact Nat.mul_div_cancel _ (by decide)
  case same_day =>
    intro hday
    rw [← UInt32.toNat_inj, UInt32.toNat_zero, hdays]
    exact Nat.div_eq_of_lt hday

/-- With the published steps and intervals the next review is in range until the last century of the
    range begins. -/
theorem inRange_withRetention (retention : Float) (m : MemoryState) (rating : Rating)
    (hnow : now.second + 3153600000 ≤ Instant.lastSecond) :
    now.second + (withRetention retention).delayAfter m rating now ≤ Instant.lastSecond := by
  have hsteps : ∀ minutes ∈ (withRetention retention).learningSteps ++
      (withRetention retention).relearningSteps, minutes ≤ 1440 := by
    simp [withRetention, standard]
  have hdelay : (withRetention retention).delayAfter m rating now ≤ 3153600000 :=
    transition_le hsteps (UInt32.le_refl _) _ _ _
  omega

/-- A right answer to a concept that is learned again, with a memory and a wanted recall that are no
    numbers. -/
theorem arranges_of_notANumber :
    let p := withRetention (0.0 / 0.0)
    let m := { MemoryState.fresh .epoch with state := .relearning, stability := 0.0 / 0.0 }
    let c := Concept.create "c" "title" m .epoch
    ¬ Instant.epoch.isLeap ∧
      Instant.epoch.second + p.delayAfter c.memory (.ofCorrect true) .epoch ≤
        Instant.lastSecond ∧
      ∃ result, p.engine.schedule c true .epoch = .ok result ∧
        p.Arranges c true .epoch result := by
  intro p m c
  have hleap : ¬ Instant.epoch.isLeap := by decide
  have hrange : Instant.epoch.second + p.delayAfter c.memory (.ofCorrect true) .epoch ≤
      Instant.lastSecond := inRange_withRetention _ _ _ (by decide)
  exact ⟨hleap, hrange, arranges_of_inRange p c true .epoch hleap hrange⟩

/-! ## A wrong and a right answer -/

/-- There are steps of both kinds, the first of them fit into a day, and the second step of
    learning, if there is one, is no shorter than the first. -/
structure StepsInOrder (p : Parameters) : Prop where
  learning_ne_nil : p.learningSteps ≠ []
  relearning_ne_nil : p.relearningSteps ≠ []
  first_le_day : ∀ first, p.learningSteps[0]? = some first → first ≤ 1440
  firstAgain_le_day : ∀ first, p.relearningSteps[0]? = some first → first ≤ 1440
  first_le_second : ∀ first second, p.learningSteps[0]? = some first →
    p.learningSteps[1]? = some second → first ≤ second

theorem stepsInOrder_withRetention (retention : Float) :
    (withRetention retention).StepsInOrder := by
  constructor
  all_goals simp [withRetention, standard]

/-- A wrong answer leads to a first step, of learning if the concept is new. -/
theorem exists_transition_again (h : p.StepsInOrder) (state : LearningState) (stability : Float) :
    ∃ first : UInt32, (p.transition state .again stability).2 = first.toNat * 60 ∧
      first ≤ 1440 ∧ (state = .new → p.learningSteps[0]? = some first) := by
  obtain ⟨first, rest, hlearning⟩ := List.exists_cons_of_ne_nil h.learning_ne_nil
  obtain ⟨firstAgain, restAgain, hrelearning⟩ := List.exists_cons_of_ne_nil h.relearning_ne_nil
  have hfirst : p.learningSteps[0]? = some first := by rw [hlearning]; rfl
  have hfirstAgain : p.relearningSteps[0]? = some firstAgain := by rw [hrelearning]; rfl
  have hshort : p.shortStep? state .again = some (.learning, first.toNat * 60) ∨
      state ≠ .new ∧ p.shortStep? state .again = some (.relearning, firstAgain.toNat * 60) := by
    cases state
    all_goals simp [shortStep?, stepDelay?, hfirst, hfirstAgain]
  rcases hshort with hshort | ⟨hstate, hshort⟩
  · rw [transition, hshort]
    exact ⟨first, rfl, h.first_le_day first hfirst, fun _ => hfirst⟩
  · rw [transition, hshort]
    exact ⟨firstAgain, rfl, h.firstAgain_le_day firstAgain hfirstAgain,
      fun hnew => absurd hnew hstate⟩

/-- A wrong answer puts the next review off no longer than a right one. -/
theorem delayAfter_again_le_good (h : p.StepsInOrder) (m : MemoryState) (now : Instant) :
    p.delayAfter m .again now ≤ p.delayAfter m .good now := by
  obtain ⟨first, hfirst, hday, hsteps⟩ :=
    exists_transition_again h m.state (p.nextStability m .again now)
  have hday : first.toNat ≤ 1440 := UInt32.le_iff_toNat_le.1 hday
  have hinterval : Instant.secondsPerDay ≤
      p.intervalDays (p.nextStability m .good now) * Instant.secondsPerDay :=
    Nat.le_mul_of_pos_left _ (p.intervalDays_bounds _).1
  have hseconds : Instant.secondsPerDay = 86400 := rfl
  rw [delayAfter, delayAfter, hfirst]
  by_cases hnew : m.state = .new
  · rw [hnew]
    rcases p.transition_new_good (p.nextStability m .good now) with
      ⟨second, hsecond, hstep⟩ | ⟨-, hstep⟩
    · have hle := UInt32.le_iff_toNat_le.1 (h.first_le_second first second (hsteps hnew) hsecond)
      rw [hstep]
      exact Nat.mul_le_mul_right 60 hle
    · rw [hstep]
      show first.toNat * 60 ≤ p.intervalDays _ * Instant.secondsPerDay
      omega
  · rw [transition_good_of_ne_new hnew]
    show first.toNat * 60 ≤ p.intervalDays _ * Instant.secondsPerDay
    omega

/-- Engines with the published steps, whatever recall they want, keep wrong answers from lasting
    longer than right ones, and so does every engine with steps in order: if a right answer can be
    scheduled, then a wrong one can be too, and it is due no later and after no more days. -/
theorem wrong_le_right :
    standard.StepsInOrder ∧ (∀ retention, (withRetention retention).StepsInOrder) ∧
    ∀ p : Parameters, p.StepsInOrder → ∀ (c : Concept) (now : Instant),
      now.second + p.delayAfter c.memory (.ofCorrect true) now ≤ Instant.lastSecond →
      ∃ right wrong, p.engine.schedule c true now = .ok right ∧
        p.engine.schedule c false now = .ok wrong ∧
        wrong.nextReview ≤ right.nextReview ∧ wrong.scheduledDays ≤ right.scheduledDays := by
  refine ⟨stepsInOrder_withRetention _, stepsInOrder_withRetention, fun p h c now hrange => ?_⟩
  have hle : p.delayAfter c.memory (.ofCorrect false) now ≤
      p.delayAfter c.memory (.ofCorrect true) now := delayAfter_again_le_good h c.memory now
  obtain ⟨dueRight, hright⟩ := Instant.exists_after? hrange
  obtain ⟨dueWrong, hwrong⟩ : ∃ due,
      now.after? (p.delayAfter c.memory (.ofCorrect false) now) = some due :=
    Instant.exists_after? (by omega)
  obtain ⟨hdue, hsince⟩ := Instant.after?_mono hle hwrong hright
  refine ⟨_, _, Engine.schedule_eq_ok.2 ⟨_, update_eq_ok.2 ⟨dueRight, hright, rfl⟩, rfl⟩,
    Engine.schedule_eq_ok.2 ⟨_, update_eq_ok.2 ⟨dueWrong, hwrong, rfl⟩, rfl⟩, hdue, ?_⟩
  rw [UInt32.le_iff_toNat_le, UInt32.toNat_ofNat_of_lt' (Instant.days_since_lt dueWrong now),
    UInt32.toNat_ofNat_of_lt' (Instant.days_since_lt dueRight now)]
  exact Int.toNat_le_toNat (Int.tdiv_le_tdiv (by decide) hsince)

/-- A concept that is answered in a leap second, by an engine that wants no recall that is a
    number. -/
theorem wrong_le_right_of_leapSecond :
    let p := withRetention (0.0 / 0.0)
    let now : Instant := (Instant.of? 59 1500000000).get rfl
    let c := Concept.create "c" "title" { MemoryState.fresh now with state := .review } now
    p.StepsInOrder ∧
      now.second + p.delayAfter c.memory (.ofCorrect true) now ≤ Instant.lastSecond ∧
      ∃ right wrong, p.engine.schedule c true now = .ok right ∧
        p.engine.schedule c false now = .ok wrong ∧
        wrong.nextReview ≤ right.nextReview ∧ wrong.scheduledDays ≤ right.scheduledDays := by
  intro p now c
  obtain ⟨-, hretention, hright⟩ := wrong_le_right
  have hrange : now.second + p.delayAfter c.memory (.ofCorrect true) now ≤
      Instant.lastSecond := inRange_withRetention _ _ _ (by decide)
  exact ⟨hretention _, hrange, hright p (hretention _) c now hrange⟩

end Parameters

end SpacedReview
