import Mathlib.Data.String.Basic
import SpacedReview.Time.Instant

/-!
# The order of instants

Instants are ordered by second and nanosecond, and `compare` tells how two of them are ordered. The
whole days between two of them can be counted with 32 bits. Cutting instants to the microsecond
keeps their order, though it can make two of them equal.
-/

namespace SpacedReview

namespace Instant

variable {a b c : Instant}

theorem ext_of (hsecond : a.second = b.second) (hnano : a.nano = b.nano) : a = b := by
  obtain ⟨second, nano, _, _, _, _⟩ := a
  obtain ⟨second', nano', _, _, _, _⟩ := b
  obtain rfl : second = second' := hsecond
  obtain rfl : nano = nano' := hnano
  rfl

theorem le_iff : a ≤ b ↔ a.second < b.second ∨ a.second = b.second ∧ a.nano ≤ b.nano :=
  Iff.rfl

theorem lt_iff : a < b ↔ a.second < b.second ∨ a.second = b.second ∧ a.nano < b.nano := by
  show a ≤ b ∧ ¬ b ≤ a ↔ _
  rw [le_iff, le_iff]
  omega

protected theorem le_trans (hab : a ≤ b) (hbc : b ≤ c) : a ≤ c := by
  rw [le_iff] at hab hbc ⊢
  omega

theorem lt_trichotomy (a b : Instant) : a < b ∨ a = b ∨ b < a := by
  rw [lt_iff, lt_iff]
  by_cases heq : a.second = b.second ∧ a.nano = b.nano
  · exact .inr (.inl (ext_of heq.1 heq.2))
  · omega

theorem le_iff_not_lt : a ≤ b ↔ ¬ b < a := by
  rw [le_iff, lt_iff]
  omega

instance : Std.TransOrd Instant :=
  inferInstanceAs (Std.TransCmp (compareLex (compareOn second) (compareOn nano)))

instance : Std.LawfulEqOrd Instant where
  eq_of_compare {a b} h := by
    have h : (compare a.second b.second).then (compare a.nano b.nano) = .eq := h
    rw [Ordering.then_eq_eq] at h
    exact ext_of (Std.LawfulEqOrd.eq_of_compare h.1) (Std.LawfulEqOrd.eq_of_compare h.2)

theorem compare_eq_lt : compare a b = .lt ↔ a < b := by
  show (compare a.second b.second).then (compare a.nano b.nano) = .lt ↔ _
  rw [Ordering.then_eq_lt, lt_iff, Std.LawfulEqOrd.compare_eq_iff_eq,
    Std.LawfulLTCmp.eq_lt_iff_lt, Std.LawfulLTCmp.eq_lt_iff_lt]

theorem compare_eq_gt : compare a b = .gt ↔ b < a := by
  rw [Std.OrientedCmp.gt_iff_lt, compare_eq_lt]

/-! ## Distances -/

/-- Two instants are so close together that the whole days between them can be counted. -/
theorem days_since_lt (due now : Instant) :
    ((due.since now).tdiv 86400000000000).toNat < 4294967296 := by
  -- All instants together span fewer days than a counter of 32 bits can hold.
  have hsince : due.since now < 86400000000000 * 4294967296 := by
    have hdue := due.le_last
    have hnow := now.first_le
    have hnano := due.nano_lt
    unfold since
    simp only [nanosPerSecond]
    split
    · omega
    · split
      · omega
      · omega
  by_cases hneg : due.since now < 0
  · have hdays : 0 ≤ (-due.since now).tdiv 86400000000000 := Int.tdiv_nonneg (by omega) (by omega)
    rw [Int.neg_tdiv] at hdays
    omega
  · rw [Int.tdiv_eq_ediv_of_nonneg (by omega)]
    omega

/-! ## Cutting -/

/-- A whole microsecond lies before the cut of an instant if it lies before the instant. -/
theorem cut_le_cut_iff : a.cut ≤ b.cut ↔ a.cut ≤ b := by
  rw [le_iff, le_iff]
  show a.second < b.second ∨ a.second = b.second ∧ a.nano / 1000 * 1000 ≤ b.nano / 1000 * 1000 ↔
    a.second < b.second ∨ a.second = b.second ∧ a.nano / 1000 * 1000 ≤ b.nano
  omega

theorem cut_mono (h : a ≤ b) : a.cut ≤ b.cut := by
  rw [le_iff] at h ⊢
  show a.second < b.second ∨ a.second = b.second ∧ a.nano / 1000 * 1000 ≤ b.nano / 1000 * 1000
  omega

/-- The first second of 1970. -/
def epoch : Instant :=
  (of? 0 0).get rfl

end Instant

end SpacedReview
