import SpacedReview.Decimal.Binary64

/-!
# The kinds of floats

A float is not a number, an infinity, a zero or a finite number, whose significand and power of two
are those of `magnitude`. Its kind and its bits tell it apart from all others; only the two zeros
are equal numbers.

## Main definitions

- `Binary64.sign` — the sign of a float, as unpacking tells it

## Main statements

- `Binary64.unpack_cases` — the kinds of floats
- `Binary64.eq_zero_or_of_beq` — the floats that are equal to zero
-/

namespace SpacedReview

namespace Binary64

open Float.Model Float.Model.UnpackedFloat

/-- Floats are told apart by their bits. -/
theorem eq_of_toBits_eq {x y : Float} (h : x.toBits = y.toBits) : x = y := by
  obtain ⟨⟨b, hb⟩⟩ := x
  obtain ⟨⟨c, hc⟩⟩ := y
  obtain rfl : b = c := h
  rfl

/-- The sign of a float, as unpacking tells it. -/
def sign (x : Float) : Sign :=
  if isNegative x then .negative else .positive

/-! ## The fields of a float -/

theorem toNat_unpackMantissa (b : BitVec 64) :
    (@unpackMantissa .binary64 b).toNat = b.toNat % leadingBit :=
  BitVec.extractLsb'_toNat 0 52 b

theorem toNat_unpackExponent (b : BitVec 64) :
    (@unpackExponent .binary64 b).toNat = b.toNat / leadingBit % 2048 := by
  have hfield : (@unpackExponent .binary64 b).toNat = (b.toNat >>> 52) % 2048 :=
    BitVec.extractLsb'_toNat 52 11 b
  rw [hfield, Nat.shiftRight_eq_div_pow]
  rfl

theorem toNat_unpackSign (b : BitVec 64) :
    (@unpackSign .binary64 b).toNat = b.toNat / signBit := by
  have hlt : b.toNat < 2 ^ 64 := b.isLt
  have hfield : (@unpackSign .binary64 b).toNat = (b.toNat >>> 63) % 2 :=
    BitVec.extractLsb'_toNat 63 1 b
  rw [hfield, Nat.shiftRight_eq_div_pow, signBit]
  omega

theorem ofBitVec_unpackSign (x : Float) :
    Sign.ofBitVec (@unpackSign .binary64 x.toBits.toBitVec) = sign x := by
  have hsign : (@unpackSign .binary64 x.toBits.toBitVec).toNat = x.toBits.toNat / signBit :=
    toNat_unpackSign _
  have hlt : x.toBits.toNat < 2 ^ 64 := x.toBits.toBitVec.isLt
  unfold signBit at hsign
  unfold Sign.ofBitVec sign isNegative signBit
  by_cases hneg : 0x8000000000000000 ≤ x.toBits.toNat
  · rw [if_neg, if_pos (decide_eq_true hneg)]
    intro hzero
    rw [hzero] at hsign
    simp only [BitVec.toNat_ofNat] at hsign
    omega
  · rw [if_pos, if_neg (by simpa using hneg)]
    apply BitVec.eq_of_toNat_eq
    rw [hsign, BitVec.toNat_ofNat]
    omega

/-- The kinds of floats. Those that are finite unpack into their sign and magnitude. -/
theorem unpack_cases (x : Float) :
    x.toModel.unpack = .notANumber ∨ x.toModel.unpack = .infinity (sign x) ∨
    x.toModel.unpack = .zero (sign x) ∧ (magnitude x).1 = 0 ∨
    ∃ hpos : 0 < (magnitude x).1,
      x.toModel.unpack = .finite (sign x) (magnitude x).1 (magnitude x).2 hpos := by
  have hmantissa : (@unpackMantissa .binary64 x.toBits.toBitVec).toNat =
      x.toBits.toNat % leadingBit := toNat_unpackMantissa _
  have hexponent : (@unpackExponent .binary64 x.toBits.toBitVec).toNat =
      x.toBits.toNat / leadingBit % 2048 := toNat_unpackExponent _
  have hfields : x.toBits.toNat % signBit / leadingBit =
        (@unpackExponent .binary64 x.toBits.toBitVec).toNat ∧
      x.toBits.toNat % signBit % leadingBit =
        (@unpackMantissa .binary64 x.toBits.toBitVec).toNat := by
    rw [hmantissa, hexponent, signBit, leadingBit]
    omega
  have hunpack : x.toModel.unpack = UnpackedFloat.unpack .binary64 x.toBits.toBitVec := rfl
  rw [hunpack, ← ofBitVec_unpackSign, magnitude, hfields.1, hfields.2]
  delta UnpackedFloat.unpack
  dsimp only
  by_cases hlast : @unpackExponent .binary64 x.toBits.toBitVec = -1#11
  · rw [if_pos hlast]
    by_cases hclear : @unpackMantissa .binary64 x.toBits.toBitVec = 0#52
    · rw [if_pos hclear]
      exact .inr (.inl rfl)
    · rw [if_neg hclear]
      exact .inl rfl
  · rw [if_neg hlast]
    by_cases hfirst : @unpackExponent .binary64 x.toBits.toBitVec = 0#11
    · rw [if_pos hfirst]
      have hzero : (@unpackExponent .binary64 x.toBits.toBitVec).toNat = 0 := by
        rw [hfirst]
        rfl
      rw [if_pos hzero]
      by_cases hclear : @unpackMantissa .binary64 x.toBits.toBitVec = 0#52
      · rw [dif_pos hclear, hclear]
        exact .inr (.inr (.inl ⟨rfl, rfl⟩))
      · rw [dif_neg hclear]
        have hpos : 0 < (@unpackMantissa .binary64 x.toBits.toBitVec).toNat :=
          Nat.pos_of_ne_zero fun h => hclear (BitVec.eq_of_toNat_eq h)
        have hpower : ((@unpackExponent .binary64 x.toBits.toBitVec).toNat : Int) - 1075 + 1 =
            -1074 := by
          rw [hzero]
          rfl
        exact .inr (.inr (.inr ⟨hpos, congrArg (finite _ _ · hpos) hpower⟩))
    · rw [if_neg hfirst]
      have hpos : (@unpackExponent .binary64 x.toBits.toBitVec).toNat ≠ 0 :=
        fun h => hfirst (BitVec.eq_of_toNat_eq h)
      have hlead : (1#1 ++ @unpackMantissa .binary64 x.toBits.toBitVec).toNat =
          (@unpackMantissa .binary64 x.toBits.toBitVec).toNat + leadingBit := by
        have hlt : (@unpackMantissa .binary64 x.toBits.toBitVec).toNat < 2 ^ 52 := BitVec.isLt _
        rw [BitVec.toNat_append, ← Nat.shiftLeft_add_eq_or_of_lt hlt, Nat.add_comm]
        rfl
      rw [if_neg hpos, ← hlead]
      exact .inr (.inr (.inr ⟨by rw [hlead]; simp [leadingBit], rfl⟩))

theorem unpack_of_isNaN {x : Float} (h : x.isNaN) : x.toModel.unpack = .notANumber := by
  have hkind : x.isNaN = x.toModel.unpack.isNaN := rfl
  rw [hkind] at h
  cases hunpack : x.toModel.unpack with
  | notANumber => rfl
  | infinity | zero | finite =>
    rw [hunpack] at h
    cases h

/-- What is not a number stays so in a product. -/
theorem isNaN_mul {x : Float} (h : x.isNaN) (y : Float) : (x * y).isNaN := by
  have hmul : (x * y).isNaN = (Float.Model.pack
      (UnpackedFloat.mul .binary64 x.toModel.unpack y.toModel.unpack)).unpack.isNaN := rfl
  have hleft : UnpackedFloat.mul .binary64 .notANumber y.toModel.unpack = .notANumber := by
    cases y.toModel.unpack <;> rfl
  rw [hmul, unpack_of_isNaN h, hleft]
  rfl

/-! ## Equal numbers -/

/-- A number is equal to itself. -/
theorem beq_self {x : Float} (h : x.isNaN = false) : x == x := by
  have hkind : x.isNaN = x.toModel.unpack.isNaN := rfl
  have hbeq : (x == x) = x.toModel.unpack.beq x.toModel.unpack := rfl
  rw [hkind] at h
  rw [hbeq]
  cases hunpack : x.toModel.unpack with
  | notANumber =>
    rw [hunpack] at h
    cases h
  | infinity s => cases s <;> rfl
  | zero s => rfl
  | finite s m e hm =>
    have hself : (compare e e).then (compare m m) = .eq := by
      rw [Ordering.then_eq_eq]
      exact ⟨Std.ReflCmp.compare_self, Std.ReflCmp.compare_self⟩
    cases s with
    | positive =>
      show (some ((compare e e).then (compare m m)) == some .eq) = true
      rw [hself]
      rfl
    | negative =>
      show (some ((compare e e).then (compare m m)).swap == some .eq) = true
      rw [hself]
      rfl

/-- Only the two zeros are equal to zero. -/
theorem eq_zero_or_of_beq {x : Float} (h : x == 0.0) : x = 0.0 ∨ x = -0.0 := by
  have hbeq : (x == 0.0) = x.toModel.unpack.beq (.zero .positive) := rfl
  rw [hbeq] at h
  have hzero : (magnitude x).1 = 0 := by
    rcases unpack_cases x with hunpack | hunpack | ⟨-, hzero⟩ | ⟨hpos, hunpack⟩
    · rw [hunpack] at h
      cases h
    · rw [hunpack] at h
      cases hs : sign x <;> rw [hs] at h <;> cases h
    · exact hzero
    · rw [hunpack] at h
      cases hs : sign x <;> rw [hs] at h <;> cases h
  -- Apart from the sign all bits are clear.
  have hlt : x.toBits.toNat < 2 ^ 64 := x.toBits.toBitVec.isLt
  have hbits : x.toBits.toNat % signBit = 0 := by
    unfold magnitude leadingBit at hzero
    simp only at hzero
    split at hzero
    all_goals
      simp only at hzero
      omega
  unfold signBit at hbits
  have hcases : x.toBits.toNat = 0 ∨ x.toBits.toNat = 0x8000000000000000 := by omega
  rcases hcases with hclear | hset
  · exact .inl (eq_of_toBits_eq (UInt64.toNat_inj.1 hclear))
  · exact .inr (eq_of_toBits_eq (UInt64.toNat_inj.1 hset))

end Binary64

end SpacedReview
