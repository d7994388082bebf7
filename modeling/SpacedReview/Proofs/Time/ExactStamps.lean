import SpacedReview.Proofs.Time.Stamps

/-!
# Exact timestamps

The lenient reader gets every instant of the range back from its exact timestamp: signed years, the
three lengths of a fraction, and leap seconds included. A year outside 0 to 9999 has as many digits
as it needs, but a hyphen ends it; every other field has its full width, so that no blank and no
shorter form comes into play.

## Main statements

- `Instant.read?_stamp` — reading an exact timestamp
-/

namespace SpacedReview

namespace StampReader

theorem trimStart_cons {c : Char} (h : Text.isBlank c = false) (r : List Char) :
    Text.trimStart (c :: r) = c :: r :=
  List.dropWhile_cons_of_neg (by simp [h])

theorem isBlank_of_isDigit {c : Char} (h : Numeral.isDigit c) : Text.isBlank c = false := by
  have hcode := Numeral.isDigit_iff.1 h
  simp only [Text.isBlank, Bool.or_eq_false_iff, Bool.and_eq_false_iff, decide_eq_false_iff_not,
    beq_eq_false_iff_ne]
  omega

theorem trimStart_padded (w n : Nat) (r : List Char) :
    Text.trimStart (Numeral.padded w n ++ r) = Numeral.padded w n ++ r := by
  obtain ⟨c, cs, hpadded⟩ := List.exists_cons_of_ne_nil (Numeral.padded_ne_nil w n)
  have hc : Numeral.isDigit c := Numeral.isDigit_of_mem_padded w n c (by simp [hpadded])
  rw [hpadded, List.cons_append, trimStart_cons (isBlank_of_isDigit hc)]

theorem lenientMark?_self {c : Char} (h : Text.isBlank c = false) (r : List Char) :
    lenientMark? c (c :: r) = some r := by
  rw [lenientMark?, trimStart_cons h, mark?_self]

theorem lenientField?_padded {n : Nat} (hn : n < 100) (r : List Char) :
    lenientField? (Numeral.padded 2 n ++ r) = some (n, r) := by
  have hlen : (Numeral.padded 2 n).length = 2 := Numeral.length_padded (by decide) hn
  have hvalue := Numeral.value_padded 2 n
  have hlimit : Numeral.value (Numeral.padded 2 n) ≤ fieldLimit := by
    have hbound : 100 ≤ fieldLimit := by decide
    omega
  rw [lenientField?, trimStart_padded, number?_append (Numeral.isDigit_of_mem_padded 2 n)
    (by omega) hlen.le (.inl hlen) hlimit, hvalue]

/-- The digits of a year are read up to the hyphen behind them. -/
theorem number?_year {n most : Nat} (r : List Char) (hlimit : n ≤ fieldLimit)
    (hmost : (Numeral.padded 4 n).length ≤ most) :
    number? 1 most (Numeral.padded 4 n ++ '-' :: r) = some (n, '-' :: r) := by
  have hvalue := Numeral.value_padded 4 n
  have hone := List.length_pos_of_ne_nil (Numeral.padded_ne_nil 4 n)
  have hhyphen : ∀ c ∈ ('-' :: r).head?, Numeral.isDigit c = false := by
    rintro c ⟨⟩
    decide
  rw [number?_append (Numeral.isDigit_of_mem_padded 4 n) hone hmost (.inr hhyphen)
    (hvalue.le.trans hlimit), hvalue]

/-- A year without a sign has four digits. -/
theorem lenientYear?_padded {n : Nat} (hn : n < 10 ^ 4) (r : List Char) :
    lenientYear? (Numeral.padded 4 n ++ '-' :: r) = some ((n : Int), '-' :: r) := by
  have hlimit : 10 ^ 4 ≤ fieldLimit := by decide
  have hread := number?_year r (hn.le.trans hlimit) (Numeral.length_padded (by decide) hn).le
  obtain ⟨c, cs, hpadded⟩ := List.exists_cons_of_ne_nil (Numeral.padded_ne_nil 4 n)
  have hc : Numeral.isDigit c := Numeral.isDigit_of_mem_padded 4 n c (by simp [hpadded])
  rw [hpadded] at hread ⊢
  unfold lenientYear?
  split
  · rename_i heq
    rw [(List.cons.inj heq).1] at hc
    cases hc
  · rename_i heq
    rw [(List.cons.inj heq).1] at hc
    cases hc
  · rw [hread]
    rfl

/-- A year is read from its text up to the hyphen behind it. -/
theorem lenientYear?_yearText {year : Int} (hlimit : year.natAbs ≤ fieldLimit) (r : List Char) :
    lenientYear? (Text.trimStart (Instant.yearText year ++ '-' :: r)) = some (year, '-' :: r) := by
  by_cases hplain : 0 ≤ year ∧ year ≤ 9999
  · obtain ⟨n, rfl⟩ := Int.eq_ofNat_of_zero_le hplain.1
    have htext : Instant.yearText n = Numeral.padded 4 n := if_pos hplain
    rw [htext, trimStart_padded, lenientYear?_padded (by omega)]
  · have htext : Instant.yearText year = (if year < 0 then '-' else '+') ::
      Numeral.padded 4 year.natAbs := if_neg hplain
    have hlen : (Numeral.padded 4 year.natAbs).length ≤
        (Numeral.padded 4 year.natAbs ++ '-' :: r).length := by simp
    have hread := number?_year r hlimit hlen
    rw [htext]
    by_cases hneg : year < 0
    · have hback : -(year.natAbs : Int) = year := by omega
      rw [if_pos hneg, List.cons_append, trimStart_cons (by decide), lenientYear?, hread]
      show some (-(year.natAbs : Int), '-' :: r) = some (year, '-' :: r)
      rw [hback]
    · have hback : (year.natAbs : Int) = year := by omega
      rw [if_neg hneg, List.cons_append, trimStart_cons (by decide), lenientYear?, hread]
      show some ((year.natAbs : Int), '-' :: r) = some (year, '-' :: r)
      rw [hback]

/-- Nanoseconds are read from the digits that are written for them, whichever zeros are left
    out. -/
theorem fraction?_fractionText {n : Nat} (hn : n < 1000000000) :
    fraction? (Instant.fractionText n ++ ['Z']) = some (n, ['Z']) := by
  unfold Instant.fractionText
  split
  · rename_i hzero
    rw [hzero]
    rfl
  split
  · have hback : n / 1000000 * 10 ^ (9 - 3) = n := by omega
    rw [List.cons_append, fraction?_padded (by decide) (by decide) (by omega), hback]
  split
  · have hback : n / 1000 * 10 ^ (9 - 6) = n := by omega
    rw [List.cons_append, fraction?_padded (by decide) (by decide) (by omega), hback]
  · rw [List.cons_append, fraction?_padded (by decide) (by decide) hn, Nat.sub_self, Nat.pow_zero,
      Nat.mul_one]

end StampReader

namespace Instant

open StampReader in
/-- Each field is read back from its digits, in the order in which they are written. -/
theorem lenient?_stamp (t : Instant) : lenient? t.stamp.toList = some
    { year := t.date.year, month := t.date.month, day := t.date.day, hour := t.timeOfDay / 3600,
      minute := t.timeOfDay / 60 % 60, second := t.lastField, nano := t.nano % nanosPerSecond,
      offset := 0 } := by
  have hdate := t.date_bounds
  have hday := t.timeOfDay_lt
  have hlast := t.lastField_cases
  have hyear := t.year_bounds
  have hlimit : 262143 ≤ fieldLimit := by decide
  have htext : t.stamp.toList = yearText t.date.year ++ '-' :: (Numeral.padded 2 t.date.month ++
      '-' :: (Numeral.padded 2 t.date.day ++ 'T' :: (Numeral.padded 2 (t.timeOfDay / 3600) ++
        ':' :: (Numeral.padded 2 (t.timeOfDay / 60 % 60) ++ ':' :: (Numeral.padded 2 t.lastField ++
          (fractionText (t.nano % nanosPerSecond) ++ ['Z'])))))) := by
    rw [stamp, String.toList_ofList, secondText]
    simp only [List.append_assoc, List.cons_append, lastField]
  rw [htext]
  refine (bind_eq_of_eq_some (lenientYear?_yearText (by omega) _)).trans ?_
  refine (bind_eq_of_eq_some (lenientMark?_self (by decide) _)).trans ?_
  refine (bind_eq_of_eq_some (lenientField?_padded hdate.1 _)).trans ?_
  refine (bind_eq_of_eq_some (lenientMark?_self (by decide) _)).trans ?_
  refine (bind_eq_of_eq_some (lenientField?_padded hdate.2 _)).trans ?_
  refine (bind_eq_of_eq_some (between?_mark _)).trans ?_
  refine (bind_eq_of_eq_some (lenientField?_padded (by omega) _)).trans ?_
  refine (bind_eq_of_eq_some (lenientMark?_self (by decide) _)).trans ?_
  refine (bind_eq_of_eq_some (lenientField?_padded (by omega) _)).trans ?_
  refine (bind_eq_of_eq_some (lenientMark?_self (by decide) _)).trans ?_
  refine (bind_eq_of_eq_some (lenientField?_padded (by omega) _)).trans ?_
  refine (bind_eq_of_eq_some (fraction?_fractionText (Nat.mod_lt _ (by decide)))).trans ?_
  rfl

/-- Every instant is read back from its exact timestamp. -/
theorem read?_stamp (t : Instant) : read? t.stamp = some t := by
  have hnano : t.nano % nanosPerSecond + (if t.isLeap then nanosPerSecond else 0) = t.nano := by
    have hlt := t.nano_lt
    show t.nano % 1000000000 + (if 1000000000 ≤ t.nano then 1000000000 else 0) = t.nano
    split <;> omega
  rw [read?, lenient?_stamp, Option.bind_some, instant?_fields rfl hnano]

end Instant

end SpacedReview
