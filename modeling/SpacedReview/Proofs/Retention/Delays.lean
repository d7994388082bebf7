import SpacedReview.Proofs.Review.Planning
import SpacedReview.Proofs.Time.Instants

/-!
# Delays until the next review

If no step is shorter than a minute, then every answer puts the next review off by at least a
minute. Without steps of more than a day and without intervals of more than a hundred years no next
review leaves the range of instants, as long as the last century of the range has not begun.

## Main definitions

- `Parameters.StepsTakeTime` — no step is shorter than a minute

## Main statements

- `Parameters.second_lt_of_update` — the next review lies ahead
- `Parameters.exists_update` — the next review is in range
-/

namespace SpacedReview

namespace Instant

variable {t due : Instant} {seconds : Nat}

theorem second_of_after? (h : t.after? seconds = some due) : due.second = t.second + seconds := by
  unfold after? of? at h
  split at h
  · rename_i hzero
    obtain rfl := Option.some.inj h
    omega
  · split at h
    · obtain rfl := Option.some.inj h
      rfl
    · cases h

/-- No delay leads back. -/
theorem le_of_after? (h : t.after? seconds = some due) : t ≤ due := by
  by_cases hzero : seconds = 0
  · rw [after?, if_pos hzero] at h
    obtain rfl := Option.some.inj h
    exact le_iff.2 (.inr ⟨rfl, Nat.le_refl _⟩)
  · have hsecond := second_of_after? h
    exact le_iff.2 (.inl (by omega))

theorem exists_after? (h : t.second + seconds ≤ lastSecond) :
    ∃ due, t.after? seconds = some due := by
  have hfirst := t.first_le
  have hnano : t.nano % nanosPerSecond < 1000000000 := Nat.mod_lt _ (by decide)
  unfold after? of?
  split
  · exact ⟨t, rfl⟩
  · rw [dif_pos ⟨⟨by simp only [firstSecond]; omega, h⟩, by omega, by omega⟩]
    exact ⟨_, rfl⟩

end Instant

namespace Parameters

variable {p : Parameters} {low high : Nat}

/-- No step of new or of lapsed concepts is shorter than a minute. -/
def StepsTakeTime (p : Parameters) : Prop :=
  ∀ minutes ∈ p.learningSteps ++ p.relearningSteps, 1 ≤ minutes

theorem stepsTakeTime_withRetention (retention : Float) :
    (withRetention retention).StepsTakeTime := by
  simp [StepsTakeTime, withRetention, standard]

/-! ## One step -/

theorem stepDelay_bounds {steps : List UInt32} {index delay : Nat}
    (h : ∀ minutes ∈ steps, low ≤ minutes.toNat ∧ minutes.toNat ≤ high)
    (hdelay : stepDelay? steps index = some delay) : low * 60 ≤ delay ∧ delay ≤ high * 90 := by
  obtain ⟨minutes, hminutes, rfl⟩ := Option.map_eq_some_iff.1 hdelay
  have hbounds := h minutes (List.mem_of_getElem? hminutes)
  omega

theorem hardDelay_bounds {steps : List UInt32} {delay : Nat}
    (h : ∀ minutes ∈ steps, low ≤ minutes.toNat ∧ minutes.toNat ≤ high)
    (hdelay : hardDelay? steps = some delay) : low * 60 ≤ delay ∧ delay ≤ high * 90 := by
  match steps with
  | [] => simp [hardDelay?] at hdelay
  | [only] =>
    have honly := h only (by simp)
    simp only [hardDelay?, Option.some.injEq] at hdelay
    omega
  | first :: second :: _ =>
    have hfirst := h first (by simp)
    have hsecond := h second (by simp)
    simp only [hardDelay?, Option.some.injEq] at hdelay
    omega

/-- A short step takes as long as one step, or as the way between two of them. -/
theorem shortStep_bounds
    (h : ∀ minutes ∈ p.learningSteps ++ p.relearningSteps,
      low ≤ minutes.toNat ∧ minutes.toNat ≤ high)
    {state next : LearningState} {rating : Rating} {delay : Nat}
    (hshort : p.shortStep? state rating = some (next, delay)) :
    low * 60 ≤ delay ∧ delay ≤ high * 90 := by
  have hlearning := fun minutes hm => h minutes (List.mem_append_left _ hm)
  have hrelearning := fun minutes hm => h minutes (List.mem_append_right _ hm)
  unfold shortStep? at hshort
  split at hshort
  all_goals
    first
    | cases hshort
    | obtain ⟨_, hdelay, heq⟩ := Option.map_eq_some_iff.1 hshort
      cases heq
  · exact stepDelay_bounds hlearning hdelay
  · exact stepDelay_bounds hlearning hdelay
  · exact hardDelay_bounds hlearning hdelay
  · exact hardDelay_bounds hlearning hdelay
  · exact stepDelay_bounds hlearning hdelay
  · exact stepDelay_bounds hrelearning hdelay
  · exact stepDelay_bounds hrelearning hdelay
  · exact hardDelay_bounds hrelearning hdelay

/-! ## One answer -/

theorem intervalDays_bounds (p : Parameters) (stability : Float) :
    1 ≤ p.intervalDays stability ∧
      p.intervalDays stability ≤ max p.maximumInterval.toNat 1 := by
  simp only [intervalDays]
  omega

theorem transition_bounds
    (h : ∀ minutes ∈ p.learningSteps ++ p.relearningSteps,
      low ≤ minutes.toNat ∧ minutes.toNat ≤ high)
    (state : LearningState) (rating : Rating) (stability : Float) :
    min (low * 60) 86400 ≤ (p.transition state rating stability).2 ∧
      (p.transition state rating stability).2 ≤
        max (high * 90) (max p.maximumInterval.toNat 1 * 86400) := by
  rw [transition]
  cases hshort : p.shortStep? state rating with
  | some step =>
    obtain ⟨next, delay⟩ := step
    have hbounds := shortStep_bounds h hshort
    show _ ≤ delay ∧ delay ≤ _
    omega
  | none =>
    have hdays := p.intervalDays_bounds stability
    show _ ≤ p.intervalDays stability * 86400 ∧ p.intervalDays stability * 86400 ≤ _
    omega

/-- The next review lies ahead, whatever the memory and the answer. -/
theorem second_lt_of_update (h : p.StepsTakeTime) {m m' : MemoryState} {rating : Rating}
    {now : Instant} (hm : p.update m rating now = .ok m') :
    now.second < m'.nextReview.second := by
  obtain ⟨due, hdue, rfl⟩ := update_eq_ok.1 hm
  have hsteps : ∀ minutes ∈ p.learningSteps ++ p.relearningSteps,
      1 ≤ minutes.toNat ∧ minutes.toNat ≤ 4294967295 := by
    intro minutes hm
    have hle := UInt32.le_iff_toNat_le.1 (h minutes hm)
    have hlt := minutes.toNat_lt
    simp only [UInt32.toNat_one] at hle
    omega
  have hdelay := transition_bounds hsteps m.state rating (p.nextStability m rating now)
  rw [Instant.second_of_after? hdue]
  omega

/-- The next review comes within a hundred years if no step is longer than a day and no interval
    longer than a hundred years. -/
theorem transition_le
    (hsteps : ∀ minutes ∈ p.learningSteps ++ p.relearningSteps, minutes ≤ 1440)
    (hinterval : p.maximumInterval ≤ 36500) (state : LearningState) (rating : Rating)
    (stability : Float) : (p.transition state rating stability).2 ≤ 3153600000 := by
  have hsteps : ∀ minutes ∈ p.learningSteps ++ p.relearningSteps,
      0 ≤ minutes.toNat ∧ minutes.toNat ≤ 1440 := by
    intro minutes hm
    exact ⟨Nat.zero_le _, UInt32.le_iff_toNat_le.1 (hsteps minutes hm)⟩
  have hinterval : p.maximumInterval.toNat ≤ 36500 := UInt32.le_iff_toNat_le.1 hinterval
  have hdelay := transition_bounds hsteps state rating stability
  omega

/-- Then it is in range if no hundred years are missing to the last instant. -/
theorem exists_update
    (hsteps : ∀ minutes ∈ p.learningSteps ++ p.relearningSteps, minutes ≤ 1440)
    (hinterval : p.maximumInterval ≤ 36500) {now : Instant}
    (hnow : now.second + 3153600000 ≤ Instant.lastSecond) (m : MemoryState) (rating : Rating) :
    ∃ m', p.update m rating now = .ok m' := by
  have hdelay := transition_le hsteps hinterval m.state rating (p.nextStability m rating now)
  obtain ⟨due, hdue⟩ : ∃ due,
      now.after? (p.transition m.state rating (p.nextStability m rating now)).2 = some due :=
    Instant.exists_after? (by omega)
  exact ⟨_, update_eq_ok.2 ⟨due, hdue, rfl⟩⟩

end Parameters

end SpacedReview
