import SpacedReview.Json.Number
import SpacedReview.Proofs.Decimal.Kinds
import SpacedReview.Proofs.Decimal.Rounding
import SpacedReview.Proofs.Decimal.Tokens

/-!
# Floats are told apart by their numerals

The numeral of a float stands for the number that the search for it has found, wherever the format
puts the point. This number lies in the rounding interval of the float and of no other one, so two
floats with one numeral are the same.

## Main definitions

- `Token.size` — the absolute value of a written number

## Main statements

- `Layout.holds_size_token` — the numeral of a float lies in its rounding interval
- `Layout.token_inj` — floats with one numeral
-/

namespace SpacedReview

namespace Decimal

open Binary64 (magnitude unsignedBits isNegative)
open Json (exponentValue)

/-- The absolute value of a written number. -/
def Token.size (t : Token) : ℚ :=
  Numeral.value (t.whole ++ t.fraction) * 10 ^ (exponentValue t.exponent - t.fraction.length)

variable {x y : Float}

/-! ## Digits and their place -/

/-- The number with the given digits whose first one stands at a power of ten. -/
def placed (ds : List Char) (top : Int) : ℚ :=
  Numeral.value ds * 10 ^ (top + 1 - ds.length)

theorem exists_append_dropTrailingZeros (ds : List Char) :
    ∃ k, ds = dropTrailingZeros ds ++ List.replicate k '0' := by
  have hzeros : ∀ c ∈ ds.rtakeWhile (· == '0'), c = '0' := by
    intro c hc
    have hzero := List.mem_rtakeWhile_imp hc
    exact beq_iff_eq.1 hzero
  refine ⟨(ds.rtakeWhile (· == '0')).length, ?_⟩
  rw [← List.eq_replicate_of_mem hzeros]
  exact List.rdropWhile_append_rtakeWhile.symm

theorem placed_append_replicate (ds : List Char) (k : Nat) (top : Int) :
    placed (ds ++ List.replicate k '0') top = placed ds top := by
  rw [placed, placed, Numeral.value_append_replicate, List.length_append, List.length_replicate,
    Nat.cast_mul, Nat.cast_pow, Nat.cast_ofNat, mul_assoc, ← zpow_natCast,
    ← zpow_add₀ (by norm_num)]
  congr 2
  omega

theorem placed_shortest {found : Nat × Int}
    (hfound : (RoundingInterval.of x).search
      (leadingPower (RoundingInterval.of x).value (RoundingInterval.of x).den) 1 17 = found) :
    placed (shortest x).1 (shortest x).2 = found.1 * 10 ^ found.2 := by
  obtain ⟨k, hk⟩ := exists_append_dropTrailingZeros (Numeral.digits found.1)
  rw [shortest]
  simp only [hfound]
  rw [← placed_append_replicate _ k, ← hk, placed, Numeral.value_digits]
  congr 2
  omega

/-- A number is written with its digits, some zeros behind them, and the point or an exponent that
    makes up for these. -/
theorem size_eq_placed {t : Token} {ds : List Char} {top : Int} (k : Nat)
    (hvalue : Numeral.value (t.whole ++ t.fraction) = Numeral.value ds * 10 ^ k)
    (hplace : exponentValue t.exponent - t.fraction.length + k = top + 1 - ds.length) :
    t.size = placed ds top := by
  rw [Token.size, placed, hvalue, ← hplace, Nat.cast_mul, Nat.cast_pow, Nat.cast_ofNat, mul_assoc,
    ← zpow_natCast, ← zpow_add₀ (by norm_num), add_comm (k : Int)]

theorem size_aroundPoint (negative : Bool) (ds : List Char) (top : Int) :
    Token.size ⟨negative, (aroundPoint ds top).1, (aroundPoint ds top).2, none⟩ =
      placed ds top := by
  cases top with
  | ofNat k =>
    by_cases hlong : ds.drop (k + 1) = []
    · -- All digits stand in front of the point, and a zero behind it.
      have hlen : ds.length ≤ k + 1 := List.drop_eq_nil_iff.1 hlong
      have hdigits : (aroundPoint ds (.ofNat k)).1 ++ (aroundPoint ds (.ofNat k)).2 =
          ds ++ List.replicate (k + 1 - ds.length + 1) '0' := by
        simp only [aroundPoint, hlong, List.take_of_length_le hlen, if_true]
        rw [List.append_assoc, List.replicate_succ']
      have hfraction : (aroundPoint ds (.ofNat k)).2 = ['0'] := if_pos hlong
      refine size_eq_placed (k + 1 - ds.length + 1) ?_ ?_
      · rw [hdigits, Numeral.value_append_replicate]
      · rw [hfraction, List.length_singleton, exponentValue, Int.ofNat_eq_natCast]
        omega
    · have hlen : k + 1 < ds.length := not_le.1 (mt List.drop_eq_nil_iff.2 hlong)
      have hwhole : (aroundPoint ds (.ofNat k)).1 = ds.take (k + 1) := by
        simp only [aroundPoint, List.length_take, min_eq_left hlen.le, Nat.sub_self,
          List.replicate_zero, List.append_nil]
      have hfraction : (aroundPoint ds (.ofNat k)).2 = ds.drop (k + 1) := if_neg hlong
      refine size_eq_placed 0 ?_ ?_
      · rw [hwhole, hfraction, List.take_append_drop, Nat.pow_zero, Nat.mul_one]
      · rw [hfraction, List.length_drop, exponentValue, Int.ofNat_eq_natCast]
        omega
  | negSucc k =>
    refine size_eq_placed 0 ?_ ?_
    · show Numeral.value (List.replicate (k + 1) '0' ++ ds) = _
      rw [Numeral.value_replicate_append, Nat.pow_zero, Nat.mul_one]
    · simp only [aroundPoint, List.length_append, List.length_replicate, exponentValue]
      omega

theorem exponentValue_digits (top : Int) {sign : Option Char} (hsign : sign ≠ some '-') :
    exponentValue (some ⟨if top < 0 then some '-' else sign, Numeral.digits top.natAbs⟩) = top := by
  simp only [exponentValue, Numeral.value_digits]
  by_cases h : top < 0
  · rw [if_pos h, if_pos rfl]
    omega
  · rw [if_neg h, if_neg hsign]
    omega

theorem size_exponent (negative : Bool) (ds : List Char) (top : Int) {sign : Option Char}
    (hsign : sign ≠ some '-') :
    Token.size ⟨negative, ds.take 1, ds.drop 1,
      some ⟨if top < 0 then some '-' else sign, Numeral.digits top.natAbs⟩⟩ = placed ds top := by
  by_cases hds : ds = []
  · rw [hds, Token.size, placed]
    exact (zero_mul _).trans (zero_mul _).symm
  · have hlen := List.length_pos_of_ne_nil hds
    refine size_eq_placed 0 ?_ ?_
    · rw [List.take_append_drop, Nat.pow_zero, Nat.mul_one]
    · rw [exponentValue_digits top hsign, List.length_drop]
      omega

namespace Layout

variable {l : Layout}

theorem negative_token (l : Layout) (x : Float) : (l.token x).negative = isNegative x := by
  rw [token]
  split
  · rfl
  · simp only
    split <;> rfl

theorem size_token_of_eq_zero (hx : (magnitude x).1 = 0) : (l.token x).size = 0 := by
  rw [token, if_pos hx]
  exact zero_mul _

theorem size_token (hplus : l.plusSign ≠ some '-') (hx : (magnitude x).1 ≠ 0) :
    (l.token x).size = placed (shortest x).1 (shortest x).2 := by
  rw [token, if_neg hx]
  simp only
  split
  · exact size_aroundPoint _ _ _
  · exact size_exponent _ _ _ hplus

/-- The numeral of a float other than zero lies in its rounding interval. -/
theorem holds_size_token (hplus : l.plusSign ≠ some '-') (hx : (magnitude x).1 ≠ 0) :
    (RoundingInterval.of x).Holds (l.token x).size := by
  rw [size_token hplus hx, placed_shortest rfl]
  exact RoundingInterval.holds_search_of hx rfl

theorem size_token_ne_zero (hplus : l.plusSign ≠ some '-') (hx : (magnitude x).1 ≠ 0) :
    (l.token x).size ≠ 0 := by
  intro hzero
  have hholds := holds_size_token hplus hx
  have hout := RoundingInterval.contains_timesPower_zero (RoundingInterval.low_pos hx) 0
  rw [hzero, ← zero_mul ((10 : ℚ) ^ (0 : Int)), ← Nat.cast_zero,
    ← RoundingInterval.contains_timesPower_iff, hout] at hholds
  cases hholds

theorem magnitude_eq_zero_iff (hplus : l.plusSign ≠ some '-') :
    (magnitude x).1 = 0 ↔ (l.token x).size = 0 :=
  ⟨size_token_of_eq_zero, not_imp_not.1 (size_token_ne_zero hplus)⟩

theorem unsignedBits_eq_of_token_eq (hplus : l.plusSign ≠ some '-') (h : l.token x = l.token y) :
    unsignedBits x = unsignedBits y := by
  by_cases hx : (magnitude x).1 = 0
  · have hy : (magnitude y).1 = 0 := by
      rwa [magnitude_eq_zero_iff hplus, h, ← magnitude_eq_zero_iff hplus] at hx
    exact (Binary64.bitsMagnitude_eq_zero hx).trans (Binary64.bitsMagnitude_eq_zero hy).symm
  · have hy : (magnitude y).1 ≠ 0 := by
      rwa [magnitude_eq_zero_iff hplus, h, ← magnitude_eq_zero_iff hplus] at hx
    have hholds := holds_size_token hplus hx
    rw [h] at hholds
    exact RoundingInterval.unsignedBits_eq_of_holds hholds (holds_size_token hplus hy)

/-- Floats with one numeral are the same, whatever the format writes in front of an exponent that
    is not negative, as long as it is not a minus sign. -/
theorem token_inj (hplus : l.plusSign ≠ some '-') (h : l.token x = l.token y) : x = y := by
  have hbits := unsignedBits_eq_of_token_eq hplus h
  have hsign : isNegative x = isNegative y := by
    rw [← negative_token l, h, negative_token]
  refine Binary64.eq_of_toBits_eq (UInt64.toNat_inj.1 ?_)
  have hx := x.toBits.toNat_lt
  have hy := y.toBits.toNat_lt
  unfold unsignedBits Binary64.signBit at hbits
  unfold isNegative Binary64.signBit at hsign
  rw [decide_eq_decide] at hsign
  omega

end Layout

end Decimal

end SpacedReview
