import Mathlib.Algebra.Order.Field.Power
import Mathlib.Algebra.Order.Field.Rat
import Mathlib.Data.Nat.Cast.Order.Field
import Mathlib.Tactic.Linarith
import Mathlib.Tactic.Positivity
import Mathlib.Tactic.Ring
import SpacedReview.Decimal.Shortest
import SpacedReview.Proofs.Text.Numerals

/-!
# The numbers that round to a float

The rounding intervals of the floats above zero lie one behind the other: where one ends, that of
the next float begins, and their common end belongs to the float with the even significand alone.
So no number is in two of them. The search for the shortest numeral of a float ends with a number
in its interval, since the grid of seventeen digits is finer than the interval is wide.

## Main definitions

- `Binary64.upper` — where the interval of a float ends
- `RoundingInterval.Holds` — the numbers in an interval

## Main statements

- `RoundingInterval.unsignedBits_eq_of_holds` — a number in the intervals of two floats
- `RoundingInterval.holds_search_of` — the number that the search finds
-/

namespace SpacedReview

namespace Binary64

/-! ## Floats in ascending order -/

/-- The bits of a float without its sign. -/
def unsignedBits (x : Float) : Nat :=
  x.toBits.toNat % signBit

/-- The significand and the power of two that unsigned bits stand for. -/
def bitsMagnitude (b : Nat) : Nat × Int :=
  if b / leadingBit = 0 then (b % leadingBit, -1074)
  else (b % leadingBit + leadingBit, ((b / leadingBit : Nat) : Int) - 1075)

theorem magnitude_eq (x : Float) : magnitude x = bitsMagnitude (unsignedBits x) :=
  rfl

/-- How far the interval reaches below a float, in quarters of the last place. -/
def reach (m : Nat) (e : Int) : Nat :=
  if m = leadingBit ∧ -1074 < e then 1 else 2

/-- Where the interval of unsigned bits begins. -/
def lower (b : Nat) : ℚ :=
  (4 * (bitsMagnitude b).1 - reach (bitsMagnitude b).1 (bitsMagnitude b).2 : Nat) *
    2 ^ ((bitsMagnitude b).2 - 2)

/-- Where the interval of unsigned bits ends. -/
def upper (b : Nat) : ℚ :=
  (4 * (bitsMagnitude b).1 + 2 : Nat) * 2 ^ ((bitsMagnitude b).2 - 2)

variable {b c : Nat}

theorem bitsMagnitude_eq_zero (h : (bitsMagnitude b).1 = 0) : b = 0 := by
  unfold bitsMagnitude leadingBit at h
  split at h
  all_goals
    simp only at h
    omega

theorem bitsMagnitude_mod_two (b : Nat) : (bitsMagnitude b).1 % 2 = b % 2 := by
  unfold bitsMagnitude leadingBit
  split
  all_goals
    simp only
    omega

theorem bitsMagnitude_lt (b : Nat) : (bitsMagnitude b).1 < 2 ^ 53 := by
  unfold bitsMagnitude leadingBit
  split
  all_goals
    simp only
    omega

/-- The next float has the next significand, or the least one with the next power of two. -/
theorem bitsMagnitude_succ (b : Nat) :
    bitsMagnitude (b + 1) = ((bitsMagnitude b).1 + 1, (bitsMagnitude b).2) ∧
        ((bitsMagnitude b).1 + 1 ≠ leadingBit ∨ (bitsMagnitude b).2 = -1074) ∨
      bitsMagnitude (b + 1) = (leadingBit, (bitsMagnitude b).2 + 1) ∧
        (bitsMagnitude b).1 + 1 = 2 * leadingBit ∧ -1074 ≤ (bitsMagnitude b).2 := by
  unfold bitsMagnitude leadingBit
  split <;> split
  all_goals
    simp only [Prod.mk.injEq, or_true, and_true]
    omega

/-- The interval of a float begins where that of the float below it ends. -/
theorem lower_succ (b : Nat) : lower (b + 1) = upper b := by
  have htwo : (2 : ℚ) ≠ 0 := two_ne_zero
  rcases bitsMagnitude_succ b with ⟨hnext, hleast⟩ | ⟨hnext, htop, hpower⟩
  · have hreach : reach ((bitsMagnitude b).1 + 1) (bitsMagnitude b).2 = 2 := by
      refine if_neg fun h => ?_
      omega
    rw [lower, upper, hnext, hreach]
    congr 2
  · have hreach : reach leadingBit ((bitsMagnitude b).2 + 1) = 1 := if_pos ⟨rfl, by omega⟩
    have hmid : (bitsMagnitude b).1 * 4 + 2 = 2 * (4 * leadingBit - 1) := by
      unfold leadingBit at htop ⊢
      omega
    rw [lower, upper, hnext, hreach, mul_comm 4 (bitsMagnitude b).1, hmid, Nat.cast_mul,
      Nat.cast_two, mul_comm 2, mul_assoc, ← zpow_one_add₀ htwo]
    congr 2
    ring

theorem lower_lt_upper (b : Nat) : lower b < upper b := by
  have hpow : (0 : ℚ) < 2 ^ ((bitsMagnitude b).2 - 2) := zpow_pos two_pos _
  refine mul_lt_mul_of_pos_right (Nat.cast_lt.2 ?_) hpow
  omega

theorem strictMono_upper : StrictMono upper :=
  strictMono_nat_of_lt_succ fun b => lower_succ b ▸ lower_lt_upper (b + 1)

end Binary64

namespace Decimal

open Binary64 (magnitude unsignedBits bitsMagnitude lower upper reach)

/-! ## Ratios and powers of ten -/

theorem timesPower_spec (n : Nat) (power : Int) : 0 < (timesPower n power).2 ∧
    ((timesPower n power).1 : ℚ) / (timesPower n power).2 = n * 10 ^ power := by
  cases power with
  | ofNat k =>
    refine ⟨Nat.one_pos, ?_⟩
    show ((n * 10 ^ k : Nat) : ℚ) / (1 : Nat) = n * 10 ^ (k : Int)
    rw [Nat.cast_one, div_one, zpow_natCast, Nat.cast_mul, Nat.cast_pow, Nat.cast_ofNat]
  | negSucc k =>
    refine ⟨Nat.pow_pos (by decide), ?_⟩
    show (n : ℚ) / (10 ^ (k + 1) : Nat) = n * 10 ^ Int.negSucc k
    rw [zpow_negSucc, Nat.cast_pow, Nat.cast_ofNat, div_eq_mul_inv]

theorem overPower_spec {den : Nat} (hden : 0 < den) (num : Nat) (power : Int) :
    0 < (overPower num den power).2 ∧
      ((overPower num den power).1 : ℚ) / (overPower num den power).2 =
        num / den / 10 ^ power := by
  cases power with
  | ofNat k =>
    refine ⟨Nat.mul_pos hden (Nat.pow_pos (by decide)), ?_⟩
    show (num : ℚ) / (den * 10 ^ k : Nat) = num / den / 10 ^ (k : Int)
    rw [zpow_natCast, Nat.cast_mul, Nat.cast_pow, Nat.cast_ofNat, div_div]
  | negSucc k =>
    refine ⟨hden, ?_⟩
    show ((num * 10 ^ (k + 1) : Nat) : ℚ) / den = num / den / 10 ^ Int.negSucc k
    rw [zpow_negSucc, div_inv_eq_mul, Nat.cast_mul, Nat.cast_pow, Nat.cast_ofNat,
      div_mul_eq_mul_div]

/-- A ratio is at least the power of ten of its leading digit. -/
theorem pow_leadingPower_le {num den : Nat} (hnum : 0 < num) (hden : 0 < den) :
    (10 : ℚ) ^ leadingPower num den ≤ num / den := by
  unfold leadingPower
  split
  · rename_i hle
    have hwhole : num / den ≠ 0 := (Nat.div_pos hle hden).ne'
    have hlen := List.length_pos_of_ne_nil (Numeral.digits_ne_nil (num / den))
    have hpower : ((Numeral.digits (num / den)).length : Int) - 1 =
        ((Numeral.digits (num / den)).length - 1 : Nat) := by omega
    rw [hpower, zpow_natCast]
    calc (10 : ℚ) ^ ((Numeral.digits (num / den)).length - 1) ≤ (num / den : Nat) := by
          exact_mod_cast Numeral.pow_length_digits_le hwhole
      _ ≤ num / den := Nat.cast_div_le
  · have hinv {k : Nat} (h : den ≤ num * 10 ^ k) : (10 : ℚ) ^ (-(k : Int)) ≤ num / den := by
      have hden' : (0 : ℚ) < den := Nat.cast_pos.2 hden
      rw [zpow_neg, zpow_natCast, inv_eq_one_div, div_le_div_iff₀ (by positivity) hden', one_mul]
      exact_mod_cast h
    have hlen := List.length_pos_of_ne_nil (Numeral.digits_ne_nil (den / num))
    have hlt := Numeral.lt_pow_length_digits (den / num)
    simp only
    split
    · rename_i hle
      have hpower : 1 - ((Numeral.digits (den / num)).length : Int) =
          -((Numeral.digits (den / num)).length - 1 : Nat) := by omega
      rw [hpower]
      exact hinv hle
    · rw [Nat.div_lt_iff_lt_mul hnum, Nat.mul_comm] at hlt
      exact hinv hlt.le

/-! ## Numbers in an interval -/

namespace RoundingInterval

variable {i : RoundingInterval} {x y : Float} {q : ℚ}

/-- The number lies in the interval. -/
def Holds (i : RoundingInterval) (q : ℚ) : Prop :=
  if i.closed then (i.low : ℚ) ≤ q * i.den ∧ q * i.den ≤ i.high
  else (i.low : ℚ) < q * i.den ∧ q * i.den < i.high

theorem contains_iff {num den : Nat} (hden : 0 < den) :
    i.contains num den ↔ i.Holds (num / den) := by
  have hden' : (0 : ℚ) < den := Nat.cast_pos.2 hden
  have hscale : (num : ℚ) / den * i.den = (num * i.den : Nat) / den := by
    rw [Nat.cast_mul, div_mul_eq_mul_div]
  unfold contains Holds
  rw [hscale, le_div_iff₀ hden', div_le_iff₀ hden', lt_div_iff₀ hden', div_lt_iff₀ hden']
  simp only [← Nat.cast_mul, Nat.cast_le, Nat.cast_lt]
  split <;> simp

theorem contains_timesPower_iff (n : Nat) (power : Int) :
    i.contains (timesPower n power).1 (timesPower n power).2 ↔ i.Holds (n * 10 ^ power) := by
  obtain ⟨hpos, hvalue⟩ := timesPower_spec n power
  rw [contains_iff hpos, hvalue]

/-- The number that a grid offers lies in the interval. -/
theorem holds_of_onGrid? {n : Nat} {power : Int} (h : i.onGrid? power = some n) :
    i.Holds (n * 10 ^ power) := by
  rw [← contains_timesPower_iff]
  unfold onGrid? at h
  simp only at h
  split at h
  · cases h
  · rename_i hdown _
    exact Option.some.inj h ▸ hdown
  · rename_i hup
    exact Option.some.inj h ▸ hup
  · rename_i hdown hup
    split at h
    · exact Option.some.inj h ▸ hdown
    · exact Option.some.inj h ▸ hup

/-- A grid that offers no number has its points around the value outside the interval. -/
theorem not_holds_of_onGrid?_eq_none {power : Int} (hden : 0 < i.den)
    (h : i.onGrid? power = none) :
    ∃ n : Nat, (n * 10 ^ power : ℚ) * i.den ≤ i.value ∧
      i.value < ((n + 1 : Nat) * 10 ^ power : ℚ) * i.den ∧
      ¬ i.Holds (n * 10 ^ power) ∧ ¬ i.Holds ((n + 1 : Nat) * 10 ^ power) := by
  obtain ⟨hpos, hratio⟩ := overPower_spec hden i.value power
  have hden' : (0 : ℚ) < i.den := Nat.cast_pos.2 hden
  have hpos' : (0 : ℚ) < (overPower i.value i.den power).2 := Nat.cast_pos.2 hpos
  have hpow : (0 : ℚ) < 10 ^ power := by positivity
  refine ⟨(overPower i.value i.den power).1 / (overPower i.value i.den power).2, ?_, ?_, ?_⟩
  · rw [← le_div_iff₀ hden', ← le_div_iff₀ hpow, ← hratio]
    exact Nat.cast_div_le
  · rw [← div_lt_iff₀ hden', ← div_lt_iff₀ hpow, ← hratio, div_lt_iff₀ hpos', ← Nat.cast_mul,
      Nat.cast_lt, Nat.mul_comm]
    exact Nat.lt_mul_div_succ _ hpos
  · rw [← contains_timesPower_iff, ← contains_timesPower_iff]
    unfold onGrid? at h
    simp only at h
    split at h
    · rename_i hdown hup
      exact ⟨by rw [hdown]; exact Bool.false_ne_true, by rw [hup]; exact Bool.false_ne_true⟩
    · cases h
    · cases h
    · split at h <;> cases h

/-- A grid finer than the interval is wide has a point in it. -/
theorem onGrid?_ne_none {power : Int} (hden : 0 < i.den) (hlow : i.low < i.value)
    (hhigh : i.value < i.high) (hwidth : 10 ^ power * (i.den : ℚ) < i.high - i.low) :
    i.onGrid? power ≠ none := by
  intro hnone
  obtain ⟨n, hdown, hup, houtDown, houtUp⟩ := not_holds_of_onGrid?_eq_none hden hnone
  have hlow' : (i.low : ℚ) < i.value := Nat.cast_lt.2 hlow
  have hhigh' : (i.value : ℚ) < i.high := Nat.cast_lt.2 hhigh
  -- The point below lies under the interval and the point above lies over it.
  have hunder : (n * 10 ^ power : ℚ) * i.den ≤ i.low := by
    by_contra hin
    refine houtDown ?_
    unfold Holds
    split <;> constructor <;> linarith
  have hover : (i.high : ℚ) ≤ ((n + 1 : Nat) * 10 ^ power : ℚ) * i.den := by
    by_contra hin
    refine houtUp ?_
    unfold Holds
    split <;> constructor <;> linarith
  rw [Nat.cast_succ] at hover
  linarith

/-- The search finds a number in the interval if one of the grids that it tries has one. -/
theorem holds_search {top : Int} {count fuel : Nat}
    (h : ∃ k < fuel, i.onGrid? (top - (count + k : Nat) + 1) ≠ none) :
    i.Holds ((i.search top count fuel).1 * 10 ^ (i.search top count fuel).2) := by
  induction fuel generalizing count with
  | zero =>
    obtain ⟨k, hk, -⟩ := h
    exact absurd hk (Nat.not_lt_zero k)
  | succ fuel ih =>
    rw [search]
    split
    · rename_i n hn
      exact holds_of_onGrid? hn
    · rename_i hnone
      obtain ⟨k, hk, hgrid⟩ := h
      obtain _ | k := k
      · exact absurd hnone hgrid
      · refine ih ⟨k, Nat.lt_of_succ_lt_succ hk, ?_⟩
        rwa [Nat.add_right_comm]

/-! ## The interval of a float -/

theorem of_spec (x : Float) : ∃ scale : Nat, 0 < scale ∧ 0 < (of x).den ∧
    (scale : ℚ) / (of x).den = 2 ^ ((magnitude x).2 - 2) ∧
    (of x).low = (4 * (magnitude x).1 - reach (magnitude x).1 (magnitude x).2) * scale ∧
    (of x).value = 4 * (magnitude x).1 * scale ∧
    (of x).high = (4 * (magnitude x).1 + 2) * scale ∧
    (of x).closed = decide ((magnitude x).1 % 2 = 0) := by
  unfold of
  simp only
  split
  · rename_i k hk
    refine ⟨2 ^ k, Nat.two_pow_pos k, Nat.one_pos, ?_, rfl, rfl, rfl, trivial⟩
    rw [hk]
    show ((2 ^ k : Nat) : ℚ) / (1 : Nat) = 2 ^ (k : Int)
    rw [Nat.cast_one, div_one, zpow_natCast, Nat.cast_pow, Nat.cast_ofNat]
  · rename_i k hk
    refine ⟨1, Nat.one_pos, Nat.two_pow_pos _, ?_, rfl, rfl, rfl, trivial⟩
    rw [hk]
    show ((1 : Nat) : ℚ) / (2 ^ (k + 1) : Nat) = 2 ^ Int.negSucc k
    rw [zpow_negSucc, Nat.cast_one, Nat.cast_pow, Nat.cast_ofNat, one_div]

theorem holds_of_iff : (of x).Holds q ↔
    if unsignedBits x % 2 = 0 then lower (unsignedBits x) ≤ q ∧ q ≤ upper (unsignedBits x)
    else lower (unsignedBits x) < q ∧ q < upper (unsignedBits x) := by
  obtain ⟨scale, -, hden, hscale, hlow, -, hhigh, hclosed⟩ := of_spec x
  have hden' : (0 : ℚ) < (of x).den := Nat.cast_pos.2 hden
  have hscale' : (2 : ℚ) ^ ((magnitude x).2 - 2) * (of x).den = scale := by
    rw [← hscale, div_mul_cancel₀ _ hden'.ne']
  have hlower : ((of x).low : ℚ) = lower (unsignedBits x) * (of x).den := by
    rw [hlow, Nat.cast_mul, ← hscale', ← mul_assoc]
    rfl
  have hupper : ((of x).high : ℚ) = upper (unsignedBits x) * (of x).den := by
    rw [hhigh, Nat.cast_mul, ← hscale', ← mul_assoc]
    rfl
  rw [Binary64.magnitude_eq, Binary64.bitsMagnitude_mod_two] at hclosed
  unfold Holds
  rw [hlower, hupper, hclosed]
  simp only [decide_eq_true_eq, mul_le_mul_iff_left₀ hden', mul_lt_mul_iff_left₀ hden']

/-- A number in the interval of a float is at most its end, and at least its beginning. -/
theorem Holds.bounds (h : (of x).Holds q) :
    lower (unsignedBits x) ≤ q ∧ q ≤ upper (unsignedBits x) := by
  rw [holds_of_iff] at h
  split at h
  · exact h
  · exact ⟨h.1.le, h.2.le⟩

/-- A number in the interval of a float is not in that of a greater one. -/
theorem not_holds_of_lt (hx : unsignedBits x < unsignedBits y) (h : (of x).Holds q) :
    ¬ (of y).Holds q := by
  intro h'
  obtain ⟨c, hc⟩ : ∃ c, unsignedBits y = c + 1 := ⟨unsignedBits y - 1, by omega⟩
  -- The number is where both intervals meet, so the floats are next to each other.
  have hmeet : upper c ≤ upper (unsignedBits x) := by
    have hlow := h'.bounds.1
    rw [hc, Binary64.lower_succ] at hlow
    exact hlow.trans h.bounds.2
  have hnext : c = unsignedBits x := by
    have := Binary64.strictMono_upper.le_iff_le.1 hmeet
    omega
  rw [holds_of_iff] at h h'
  rw [hc, hnext, Binary64.lower_succ] at h'
  split at h
  · rw [if_neg (by omega)] at h'
    exact absurd h.2 (not_le.2 h'.1)
  · split at h'
    · exact absurd h.2 (not_lt.2 h'.1)
    · exact absurd h.2 (not_lt.2 h'.1.le)

/-- No number lies in the intervals of two floats. -/
theorem unsignedBits_eq_of_holds (hx : (of x).Holds q) (hy : (of y).Holds q) :
    unsignedBits x = unsignedBits y := by
  rcases lt_trichotomy (unsignedBits x) (unsignedBits y) with h | h | h
  · exact absurd hy (not_holds_of_lt h hx)
  · exact h
  · exact absurd hx (not_holds_of_lt h hy)

theorem reach_bounds {m : Nat} (hm : m ≠ 0) (hlt : m < 2 ^ 53) (e : Int) :
    0 < reach m e ∧ reach m e < 4 * m ∧ 4 * m < (reach m e + 2) * 10 ^ 16 := by
  unfold reach Binary64.leadingBit
  split <;> omega

/-- A float lies inside its interval, whose width is more than the float over ten quadrillion. -/
theorem width_of (hx : (magnitude x).1 ≠ 0) : (of x).low < (of x).value ∧
    (of x).value < (of x).high ∧ ((of x).value : ℚ) < ((of x).high - (of x).low) * 10 ^ 16 := by
  obtain ⟨scale, hpos, -, -, hlow, hvalue, hhigh, -⟩ := of_spec x
  obtain ⟨hreach, hless, hfine⟩ := reach_bounds hx (Binary64.bitsMagnitude_lt _) (magnitude x).2
  have hinside : (of x).low < (of x).value ∧ (of x).value < (of x).high := by
    rw [hlow, hvalue, hhigh]
    exact ⟨Nat.mul_lt_mul_of_pos_right (by omega) hpos,
      Nat.mul_lt_mul_of_pos_right (by omega) hpos⟩
  have hgap : (of x).high - (of x).low =
      (reach (magnitude x).1 (magnitude x).2 + 2) * scale := by
    rw [hhigh, hlow, ← Nat.sub_mul]
    congr 1
    omega
  have hwide : (of x).value < ((of x).high - (of x).low) * 10 ^ 16 := by
    rw [hvalue, hgap, Nat.mul_right_comm (_ + 2) scale]
    exact Nat.mul_lt_mul_of_pos_right hfine hpos
  refine ⟨hinside.1, hinside.2, ?_⟩
  rw [← Nat.cast_sub (hinside.1.trans hinside.2).le]
  exact_mod_cast hwide

/-- The search for the shortest numeral of a float other than zero ends in its interval, at
    seventeen digits at the latest. -/
theorem holds_search_of (hx : (magnitude x).1 ≠ 0) {found : Nat × Int}
    (hfound : (of x).search (leadingPower (of x).value (of x).den) 1 17 = found) :
    (of x).Holds (found.1 * 10 ^ found.2) := by
  obtain ⟨-, -, hden, -⟩ := of_spec x
  obtain ⟨hlow, hhigh, hwide⟩ := width_of hx
  have hlead := pow_leadingPower_le ((Nat.zero_le _).trans_lt hlow) hden
  rw [le_div_iff₀ (Nat.cast_pos.2 hden)] at hlead
  have hpower : leadingPower (of x).value (of x).den - (1 + 16 : Nat) + 1 =
      leadingPower (of x).value (of x).den - (16 : Nat) := by omega
  -- The grid of seventeen digits is finer than the interval is wide.
  have hwidth : (10 : ℚ) ^ (leadingPower (of x).value (of x).den - (1 + 16 : Nat) + 1) *
      (of x).den < (of x).high - (of x).low := by
    rw [hpower, zpow_sub₀ (by norm_num), zpow_natCast, div_mul_eq_mul_div,
      div_lt_iff₀ (by positivity)]
    exact hlead.trans_lt hwide
  rw [← hfound]
  exact holds_search ⟨16, by decide, onGrid?_ne_none hden hlow hhigh hwidth⟩

end RoundingInterval

end Decimal

end SpacedReview
