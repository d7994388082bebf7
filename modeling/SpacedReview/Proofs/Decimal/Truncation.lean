import Mathlib.Algebra.Order.Field.Power
import Mathlib.Algebra.Order.Field.Rat
import Mathlib.Algebra.Order.Floor.Semifield
import Mathlib.Data.Rat.Floor
import Mathlib.Tactic.Linarith
import SpacedReview.Proofs.Decimal.Kinds

/-!
# The whole part of a float

A finite float has an exact value, the significand and the power of two of `magnitude` with its
sign. The cast of a float to a 64-bit word drops what is after the point: it is the value rounded
down, as long as the value is not negative and the word can hold it.

## Main definitions

- `Binary64.value` — the exact value of a finite float
- `Binary64.RoundsDown` — the whole number of a range that a float stands for

## Main statements

- `Binary64.roundsDown_toUInt64_larger` — the cast of the larger of a float and zero
-/

namespace SpacedReview

namespace Binary64

open Float.Model Float.Model.UnpackedFloat

/-- The value of a finite float. -/
def value (x : Float) : ℚ :=
  (if isNegative x then -1 else 1) * ((magnitude x).1 * 2 ^ (magnitude x).2)

/-! ## Casts -/

theorem mantissa_repeat_shiftRightOne (em : ExtendedMantissa) (k : Nat) :
    (Nat.repeat ExtendedMantissa.shiftRightOne k em).mantissa = em.mantissa / 2 ^ k := by
  induction k with
  | zero => exact (Nat.div_one _).symm
  | succ k ih =>
    show (Nat.repeat _ k em).mantissa / 2 = _
    rw [ih, Nat.div_div_eq_div_mul, ← Nat.pow_succ]

/-- A significand with a power of two is rounded down. -/
theorem roundToInt_positive (m : Nat) (e : Int) :
    roundToInt .positive m e = ⌊(m : ℚ) * 2 ^ e⌋₊ := by
  have hleft : (e - 0).toNat = e.toNat := by rw [Int.sub_zero]
  have hright : (0 - (e - e.toNat)).toNat = (-e).toNat := by omega
  have hshift : roundToInt .positive m e = (m * 2 ^ e.toNat / 2 ^ (-e).toNat : Nat) := by
    show (((Nat.repeat ExtendedMantissa.shiftRightOne (0 - (e - (e - 0).toNat)).toNat
      ⟨m <<< (e - 0).toNat, false, false⟩).mantissa : Nat) : Int) = _
    rw [mantissa_repeat_shiftRightOne, Nat.shiftLeft_eq, hleft, hright]
  rw [hshift, Nat.cast_inj]
  rcases Int.le_total 0 e with hle | hle
  · obtain ⟨k, rfl⟩ := Int.eq_ofNat_of_zero_le hle
    have hvalue : (m : ℚ) * 2 ^ (k : Int) = (m * 2 ^ k : Nat) := by
      rw [zpow_natCast, Nat.cast_mul, Nat.cast_pow, Nat.cast_two]
    have hzero : (-(k : Int)).toNat = 0 := by omega
    rw [hvalue, Nat.floor_natCast, hzero, pow_zero, Nat.div_one, Int.toNat_natCast]
  · obtain ⟨k, hk⟩ := Int.eq_ofNat_of_zero_le (Int.neg_nonneg_of_nonpos hle)
    obtain rfl : e = -(k : Int) := by omega
    have hvalue : (m : ℚ) * 2 ^ (-(k : Int)) = (m : ℚ) / (2 ^ k : Nat) := by
      rw [zpow_neg, zpow_natCast, Nat.cast_pow, Nat.cast_two, div_eq_mul_inv]
    have hzero : (-(k : Int)).toNat = 0 := by omega
    rw [hvalue, Nat.floor_div_eq_div, hzero, pow_zero, Nat.mul_one, neg_neg, Int.toNat_natCast]

/-- A finite float is rounded down, and to zero if it is negative. -/
theorem toNat_roundToInt_sign (x : Float) :
    (roundToInt (sign x) (magnitude x).1 (magnitude x).2).toNat = ⌊value x⌋₊ := by
  have hnonneg : (0 : ℚ) ≤ (magnitude x).1 * 2 ^ (magnitude x).2 :=
    mul_nonneg (Nat.cast_nonneg _) (zpow_pos two_pos _).le
  rw [sign, value]
  split
  · have hopposite : roundToInt .negative (magnitude x).1 (magnitude x).2 =
        -roundToInt .positive (magnitude x).1 (magnitude x).2 := rfl
    have hfloor : ⌊-1 * ((magnitude x).1 * 2 ^ (magnitude x).2 : ℚ)⌋₊ = 0 :=
      Nat.floor_of_nonpos (by linarith)
    rw [hopposite, roundToInt_positive, hfloor]
    omega
  · rw [roundToInt_positive, one_mul, Int.toNat_natCast]

theorem toNat_ofNatClamp (n : Nat) :
    (UInt64.ofNatClamp n).toNat = min n 18446744073709551615 := by
  have hsize : UInt64.size = 18446744073709551616 := rfl
  rcases Nat.lt_or_ge n UInt64.size with hlt | hle
  · rw [UInt64.toNat_ofNatClamp_of_lt hlt]
    omega
  · rw [UInt64.toNat_ofNatClamp_of_le hle]
    omega

/-! ## Rounding down into a range -/

/-- The whole number from zero to a last one that a float stands for: zero for what is not a
    number, the end on its side for an infinity, and otherwise the value rounded down and moved into
    the range. -/
inductive RoundsDown (x : Float) (last : Nat) : Nat → Prop
  | notANumber : x.isNaN → RoundsDown x last 0
  | infinite : x.isInf → RoundsDown x last (if isNegative x then 0 else last)
  | finite : x.isFinite → RoundsDown x last (min ⌊value x⌋₊ last)

variable {x : Float}

/-- What is not a number stands for zero only. -/
theorem RoundsDown.eq_zero {last n : Nat} (h : RoundsDown x last n) (hx : x.isNaN) : n = 0 := by
  have hunpack := unpack_of_isNaN hx
  cases h with
  | notANumber => rfl
  | infinite hinf =>
    have hkind : x.isInf = x.toModel.unpack.isInf := rfl
    rw [hkind, hunpack] at hinf
    cases hinf
  | finite hfinite =>
    have hkind : x.isFinite = x.toModel.unpack.isFinite := rfl
    rw [hkind, hunpack] at hfinite
    cases hfinite

theorem RoundsDown.min {last n : Nat} (h : RoundsDown x last n) (last' : Nat) :
    RoundsDown x (Min.min last last') (Min.min n last') := by
  cases h with
  | notANumber hx =>
    rw [Nat.zero_min]
    exact .notANumber hx
  | infinite hx =>
    have hends : Min.min (if isNegative x then 0 else last) last' =
        if isNegative x then 0 else Min.min last last' := by
      split
      · exact Nat.zero_min _
      · rfl
    rw [hends]
    exact .infinite hx
  | finite hx =>
    rw [Nat.min_assoc]
    exact .finite hx

/-- The cast to a 64-bit word rounds a float down. -/
theorem roundsDown_toUInt64 (x : Float) :
    RoundsDown x 18446744073709551615 x.toUInt64.toNat := by
  have hNaN : x.isNaN = x.toModel.unpack.isNaN := rfl
  have hInf : x.isInf = x.toModel.unpack.isInf := rfl
  have hFinite : x.isFinite = x.toModel.unpack.isFinite := rfl
  have hcast : x.toUInt64.toNat =
      Min.min (x.toModel.unpack.toInt 0 18446744073709551615).toNat 18446744073709551615 :=
    toNat_ofNatClamp _
  rw [hcast]
  rcases unpack_cases x with h | h | ⟨h, hzero⟩ | ⟨hpos, h⟩
  · rw [h] at hNaN ⊢
    exact .notANumber hNaN
  · have hends : Min.min (x.toModel.unpack.toInt 0 18446744073709551615).toNat
        18446744073709551615 = if isNegative x then 0 else 18446744073709551615 := by
      rw [h, sign]
      split
      · rfl
      · rfl
    rw [hends]
    rw [h] at hInf
    exact .infinite hInf
  · have hvalue : (x.toModel.unpack.toInt 0 18446744073709551615).toNat = ⌊value x⌋₊ := by
      rw [h, value, hzero, Nat.cast_zero, zero_mul, mul_zero, Nat.floor_zero]
      rfl
    rw [hvalue]
    rw [h] at hFinite
    exact .finite hFinite
  · have hvalue : (x.toModel.unpack.toInt 0 18446744073709551615).toNat = ⌊value x⌋₊ := by
      rw [h]
      exact toNat_roundToInt_sign x
    rw [hvalue]
    rw [h] at hFinite
    exact .finite hFinite

theorem lt_zero_iff : x < 0.0 ↔ x.toModel.unpack.lt (.zero .positive) := by
  show decide (x.toModel < (0.0 : Float).toModel) = true ↔ _
  rw [decide_eq_true_iff]
  rfl

/-- Below zero the cast has nothing to round down. -/
theorem toUInt64_of_lt_zero (h : x < 0.0) : x.toUInt64.toNat = 0 := by
  rw [lt_zero_iff] at h
  have hcast : x.toUInt64.toNat =
      Min.min (x.toModel.unpack.toInt 0 18446744073709551615).toNat 18446744073709551615 :=
    toNat_ofNatClamp _
  rw [hcast]
  -- Only negative numbers and the negative infinity are below zero.
  cases hunpack : x.toModel.unpack with
  | notANumber => rfl
  | zero s => rfl
  | infinity s =>
    cases s with
    | negative => rfl
    | positive =>
      rw [hunpack] at h
      exact absurd h (by decide)
  | finite s m e hm =>
    cases s with
    | negative =>
      have hopposite : roundToInt .negative m e = -roundToInt .positive m e := rfl
      show Min.min (roundToInt .negative m e).toNat _ = 0
      rw [hopposite, roundToInt_positive]
      omega
    | positive =>
      rw [hunpack] at h
      cases h

/-- The cast of the larger of a float and zero rounds the float down. -/
theorem roundsDown_toUInt64_larger (x : Float) :
    RoundsDown x 18446744073709551615 (larger x 0.0).toUInt64.toNat := by
  have hdown := roundsDown_toUInt64 x
  have hzero : (0.0 : Float).toUInt64.toNat = 0 := rfl
  unfold larger
  split
  · rw [hzero]
    exact .notANumber ‹_›
  · split
    · rw [hzero, ← toUInt64_of_lt_zero ‹_›]
      exact hdown
    · exact hdown

end Binary64

end SpacedReview
