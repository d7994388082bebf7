import SpacedReview.Decimal.Binary64

/-!
# The forgetting curve

The retention model describes a memory by its *stability*, the days until recall falls to nine in
ten, and its *difficulty* between 1 and 10. This file has the formulas of the model: recall after
a time, the interval that keeps a wanted recall, and what one answer does to stability and
difficulty. Twenty-one `Weights` fit the formulas to a learner; the last one is the decay of the
curve.

All of it is double-precision arithmetic in the order in which it is written. Values may be
infinite, and what is not a number passes through where the formulas let it.
-/

namespace SpacedReview

open Binary64

/-- The parameters of the model, numbered from zero. -/
abbrev Weights := Vector Float 21

namespace Curve

/-- The least stability in days. -/
def leastStability : Float := 0.001

/-- The greatest stability in days, about a hundred years. -/
def greatestStability : Float := 36500.0

/-- The least difficulty. -/
def leastDifficulty : Float := 1.0

/-- The greatest difficulty. -/
def greatestDifficulty : Float := 10.0

/-- The recall that a review is scheduled for unless another one is wanted. -/
def standardRetention : Float := 0.9

/-- The decay of the curve under the standard weights. -/
def standardDecay : Float := 0.1542

/-- The stretch of the curve that puts recall at nine in ten when the elapsed time equals the
    stability, whatever the decay. -/
def stretch (decay : Float) : Float :=
  Float.pow 0.9 (-1.0 / decay) - 1.0

/-- The chance of recall after a number of days. Time before the review counts as none, and
    without stability nothing is recalled. -/
def retrievability (decay stability elapsed : Float) : Float :=
  if stability ≤ 0.0 then 0.0
  else
    let t := larger elapsed 0.0
    clamp 0.0 1.0 (Float.pow (1.0 + stretch decay * t / stability) (-decay))

/-- The days until recall falls to the wanted one, which is taken between 0.01 and 0.99. -/
def interval (decay stability retention : Float) : Float :=
  let wanted := clamp 0.01 0.99 retention
  larger (stability / stretch decay * (Float.pow wanted (-1.0 / decay) - 1.0)) 0.0

end Curve

namespace Weights

open Curve

/-- The published weights of the model. -/
def standard : Weights :=
  ⟨#[0.212, 1.2931, 2.3065, 8.2956, 6.4133, 0.8334, 3.0194, 0.001, 1.8722, 0.1666, 0.796,
    1.4835, 0.0614, 0.2629, 1.6483, 0.6014, 1.8729, 0.5425, 0.0912, 0.0658, 0.1542], rfl⟩

/-- The decay of the curve. -/
def decay (w : Weights) : Float := w[20]

/-- A grade moved onto the scale from 1 to 4. -/
def gradeOnScale (grade : Nat) : Nat :=
  max 1 (min grade 4)

/-- The grade as a factor in the formulas. -/
def gradeFactor (grade : Nat) : Float :=
  Float.ofNat (gradeOnScale grade)

/-- The stability in the interval of stabilities. -/
def boundStability (s : Float) : Float :=
  clamp leastStability greatestStability s

/-- The difficulty in the interval of difficulties. -/
def boundDifficulty (d : Float) : Float :=
  clamp leastDifficulty greatestDifficulty d

/-- The stability after the first answer: one weight per grade. -/
def firstStability (w : Weights) (grade : Nat) : Float :=
  boundStability (w.toArray.getD (gradeOnScale grade - 1) 0.0)

/-- The difficulty after the first answer, before it is bounded. -/
def rawFirstDifficulty (w : Weights) (grade : Nat) : Float :=
  w[4] - Float.exp (w[5] * (gradeFactor grade - 1.0)) + 1.0

/-- The difficulty after the first answer. -/
def firstDifficulty (w : Weights) (grade : Nat) : Float :=
  boundDifficulty (rawFirstDifficulty w grade)

/-- The difficulty after a later answer: damped towards the greatest one, then drawn back a
    little towards that of an easy first answer. -/
def nextDifficulty (w : Weights) (difficulty : Float) (grade : Nat) : Float :=
  let delta := -w[6] * (gradeFactor grade - 3.0)
  let damped := difficulty + delta * (10.0 - difficulty) / 9.0
  let target := rawFirstDifficulty w 4
  boundDifficulty (w[7] * target + (1.0 - w[7]) * damped)

/-- The stability after a successful recall. -/
def recallStability (w : Weights) (stability difficulty chance : Float) (grade : Nat) : Float :=
  let hardPenalty := if grade = 2 then w[15] else 1.0
  let easyBonus := if grade = 4 then w[16] else 1.0
  let growth := Float.exp w[8] * (11.0 - difficulty) * Float.pow stability (-w[9]) *
    (Float.exp (w[10] * (1.0 - chance)) - 1.0) * hardPenalty * easyBonus
  boundStability (stability * (1.0 + growth))

/-- The stability after a lapse, never above what one poor same-day answer would leave. -/
def lapseStability (w : Weights) (stability difficulty chance : Float) : Float :=
  let longTerm := w[11] * Float.pow difficulty (-w[12]) *
    (Float.pow (stability + 1.0) w[13] - 1.0) * Float.exp (w[14] * (1.0 - chance))
  let ceiling := stability / Float.exp (w[17] * w[18])
  boundStability (smaller longTerm ceiling)

/-- The stability after a second answer on one day; a passing grade never lowers it. -/
def sameDayStability (w : Weights) (stability : Float) (grade : Nat) : Float :=
  let increase := Float.exp (w[17] * (gradeFactor grade - 3.0 + w[18])) *
    Float.pow stability (-w[19])
  boundStability (stability * if 3 ≤ grade then larger increase 1.0 else increase)

end Weights

end SpacedReview
