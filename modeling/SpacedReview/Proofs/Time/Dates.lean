import SpacedReview.Time.Calendar

/-!
# Day numbers

The calendar day of a number exists, has that number, and comes later for a greater number.

## Main statements

- `Date.dayNumber_ofDayNumber` — the number of the day of a number
- `Date.valid_ofDayNumber` — the day of a number exists
- `Date.ofDayNumber_before` — days in the order of their numbers
-/

namespace SpacedReview

namespace Calendar

namespace Date

/-- Earlier in the calendar. -/
def Before (d e : Date) : Prop :=
  d.year < e.year ∨ d.year = e.year ∧ (d.month < e.month ∨ d.month = e.month ∧ d.day < e.day)

instance (d e : Date) : Decidable (d.Before e) :=
  inferInstanceAs (Decidable (_ ∨ _ ∧ (_ ∨ _ ∧ _)))

/-! ## The lengths of months -/

/-- Every month but the last of a year that is counted from March has a length of its own. -/
theorem daysBeforeMonth_add_daysIn (year : Int) {m : Nat} (h : m < 11) :
    daysBeforeMonth m + daysIn year (if m < 10 then m + 3 else m - 9) =
      daysBeforeMonth (m + 1) := by
  match m with
  | 0 | 1 | 2 | 3 | 4 | 5 | 6 | 7 | 8 | 9 | 10 => rfl

theorem daysBeforeMonth_add_february (year : Int) :
    daysBeforeMonth 11 + daysIn year 2 = if isLeap year then 366 else 365 := by
  by_cases h : isLeap year <;> simp [daysIn, h, daysBeforeMonth]

/-! ## The day of a number -/

/-- A number taken apart into the year counted from March and the day of that year. The last year
    of a four-year or four-century cycle is the leap year that ends with it. -/
theorem ofDayNumber_eq (n : Int) : ∃ (year : Int) (inYear : Nat),
    daysBeforeYear year + inYear = n + epochOffset ∧ inYear ≤ 365 ∧
    (inYear = 365 → isLeap (year + 1)) ∧
    ofDayNumber n =
      let month := (5 * inYear + 2) / 153
      let day := inYear - daysBeforeMonth month + 1
      if month < 10 then ⟨year, month + 3, day⟩ else ⟨year + 1, month - 9, day⟩ := by
  let cycle := (n + epochOffset) / 146097
  let inCycle := ((n + epochOffset) % 146097).toNat
  let century := min (inCycle / 36524) 3
  let inCentury := inCycle - 36524 * century
  let leapCycle := inCentury / 1461
  let inLeapCycle := inCentury % 1461
  let yearInCycle := min (inLeapCycle / 365) 3
  let inYear := inLeapCycle - 365 * yearInCycle
  have hcycle : n + epochOffset = 146097 * cycle + inCycle ∧ inCycle < 146097 := by omega
  have hcentury : inCycle = 36524 * century + inCentury ∧ century ≤ 3 ∧ inCentury ≤ 36524 ∧
      (inCentury = 36524 → century = 3) := by omega
  have hleap : inCentury = 1461 * leapCycle + inLeapCycle ∧ inLeapCycle < 1461 ∧ leapCycle ≤ 24 :=
    by omega
  have hyear : inLeapCycle = 365 * yearInCycle + inYear ∧ yearInCycle ≤ 3 ∧ inYear ≤ 365 ∧
      (inYear = 365 → yearInCycle = 3) := by omega
  refine ⟨400 * cycle + 100 * century + 4 * leapCycle + yearInCycle, inYear, ?_, by omega, ?_, rfl⟩
  · clear_value cycle inCycle century inCentury leapCycle inLeapCycle yearInCycle inYear
    have hquarter : (400 * cycle + 100 * century + 4 * leapCycle + yearInCycle) / 4 =
      100 * cycle + 25 * century + leapCycle := by omega
    have hhundred : (400 * cycle + 100 * century + 4 * leapCycle + yearInCycle) / 100 =
      4 * cycle + century := by omega
    have hcycles : (400 * cycle + 100 * century + 4 * leapCycle + yearInCycle) / 400 = cycle := by
      omega
    rw [daysBeforeYear, hquarter, hhundred, hcycles]
    omega
  · intro h
    clear_value cycle inCycle century inCentury leapCycle inLeapCycle yearInCycle inYear
    simp only [isLeap, Bool.and_eq_true, Bool.or_eq_true, decide_eq_true_eq]
    omega

theorem dayNumber_ofDayNumber (n : Int) : (ofDayNumber n).dayNumber = n := by
  obtain ⟨year, inYear, hday, hlast, -, heq⟩ := ofDayNumber_eq n
  rw [heq]
  simp only
  have hmonth : daysBeforeMonth ((5 * inYear + 2) / 153) ≤ inYear := by
    unfold daysBeforeMonth
    omega
  by_cases h : (5 * inYear + 2) / 153 < 10
  · have hmarch : ¬ (5 * inYear + 2) / 153 + 3 ≤ 2 := by omega
    simp only [if_pos h, dayNumber, if_neg hmarch, Nat.add_sub_cancel]
    omega
  · have hjanuary : (5 * inYear + 2) / 153 - 9 ≤ 2 := by omega
    have hback : (5 * inYear + 2) / 153 - 9 + 9 = (5 * inYear + 2) / 153 := by omega
    simp only [if_neg h, dayNumber, if_pos hjanuary, hback, Int.add_sub_cancel]
    omega

theorem valid_ofDayNumber (n : Int) : (ofDayNumber n).Valid := by
  obtain ⟨year, inYear, -, hlast, hleap, heq⟩ := ofDayNumber_eq n
  have hfrom : daysBeforeMonth ((5 * inYear + 2) / 153) ≤ inYear := by
    unfold daysBeforeMonth
    omega
  have hto : inYear < daysBeforeMonth ((5 * inYear + 2) / 153 + 1) := by
    unfold daysBeforeMonth
    omega
  have hmonth : (5 * inYear + 2) / 153 ≤ 11 := by omega
  rw [heq]
  generalize (5 * inYear + 2) / 153 = month at hfrom hto hmonth ⊢
  simp only
  by_cases h : month < 10
  · have hlength := daysBeforeMonth_add_daysIn year (Nat.lt_succ_of_lt h)
    rw [if_pos h] at hlength
    rw [if_pos h]
    show 1 ≤ month + 3 ∧ month + 3 ≤ 12 ∧ 1 ≤ inYear - daysBeforeMonth month + 1 ∧
      inYear - daysBeforeMonth month + 1 ≤ daysIn year (month + 3)
    omega
  · rw [if_neg h]
    show 1 ≤ month - 9 ∧ month - 9 ≤ 12 ∧ 1 ≤ inYear - daysBeforeMonth month + 1 ∧
      inYear - daysBeforeMonth month + 1 ≤ daysIn (year + 1) (month - 9)
    by_cases h11 : month < 11
    · have hlength := daysBeforeMonth_add_daysIn (year + 1) h11
      rw [if_neg h] at hlength
      omega
    · obtain rfl : month = 11 := by omega
      have hlength := daysBeforeMonth_add_february (year + 1)
      show 1 ≤ 2 ∧ 2 ≤ 12 ∧ 1 ≤ inYear - daysBeforeMonth 11 + 1 ∧
        inYear - daysBeforeMonth 11 + 1 ≤ daysIn (year + 1) 2
      by_cases hleapyear : isLeap (year + 1)
      · rw [if_pos hleapyear] at hlength
        omega
      · rw [if_neg hleapyear] at hlength
        have hnot : inYear ≠ 365 := fun hin => hleapyear (hleap hin)
        omega

/-! ## Order -/

theorem daysBeforeYear_mono {y z : Int} (h : y ≤ z) : daysBeforeYear y ≤ daysBeforeYear z := by
  unfold daysBeforeYear
  omega

theorem daysBeforeYear_succ (y : Int) :
    daysBeforeYear (y + 1) = daysBeforeYear y + if isLeap (y + 1) then 366 else 365 := by
  by_cases h : isLeap (y + 1)
  · rw [if_pos h]
    simp only [isLeap, Bool.and_eq_true, Bool.or_eq_true, decide_eq_true_eq] at h
    unfold daysBeforeYear
    omega
  · rw [if_neg h]
    simp only [isLeap, Bool.and_eq_true, Bool.or_eq_true, decide_eq_true_eq] at h
    unfold daysBeforeYear
    omega

/-- The year of a day, counted from March. -/
def marchYear (d : Date) : Int :=
  if d.month ≤ 2 then d.year - 1 else d.year

/-- The months from the last March to the month of a day. -/
def marchMonth (d : Date) : Nat :=
  if d.month ≤ 2 then d.month + 9 else d.month - 3

theorem march_cases (d : Date) :
    d.month ≤ 2 ∧ d.marchMonth = d.month + 9 ∧ d.marchYear = d.year - 1 ∨
      3 ≤ d.month ∧ d.marchMonth = d.month - 3 ∧ d.marchYear = d.year := by
  unfold marchMonth marchYear
  by_cases h : d.month ≤ 2
  · rw [if_pos h, if_pos h]
    exact .inl ⟨h, rfl, rfl⟩
  · rw [if_neg h, if_neg h]
    exact .inr ⟨Nat.lt_of_not_le h, rfl, rfl⟩

theorem dayNumber_eq (d : Date) : d.dayNumber + epochOffset =
    daysBeforeYear d.marchYear + daysBeforeMonth d.marchMonth + d.day - 1 := by
  simp only [dayNumber, marchYear, marchMonth]
  omega

/-- The day lies in its month. -/
theorem day_le {d : Date} (h : d.Valid) (hm : d.marchMonth < 11) :
    daysBeforeMonth d.marchMonth + d.day ≤ daysBeforeMonth (d.marchMonth + 1) := by
  obtain ⟨hfirst, hlast, -, hday⟩ := h
  have hlength := daysBeforeMonth_add_daysIn d.year hm
  have hmonth : (if d.marchMonth < 10 then d.marchMonth + 3 else d.marchMonth - 9) = d.month := by
    rcases march_cases d with ⟨h, hmonth, -⟩ | ⟨h, hmonth, -⟩
    · rw [if_neg (by omega), hmonth, Nat.add_sub_cancel]
    · rw [if_pos (by omega), hmonth, Nat.sub_add_cancel h]
  rw [hmonth] at hlength
  omega

/-- The day lies in the year that is counted from March. -/
theorem dayNumber_lt {d : Date} (h : d.Valid) :
    d.dayNumber + epochOffset < daysBeforeYear (d.marchYear + 1) := by
  rw [dayNumber_eq, daysBeforeYear_succ]
  by_cases hm : d.marchMonth < 11
  · have hday := day_le h hm
    have hfebruary : daysBeforeMonth (d.marchMonth + 1) ≤ 337 := by
      unfold daysBeforeMonth
      omega
    split <;> omega
  · obtain ⟨hfirst, hlast, -, hday⟩ := h
    have hmonth : d.month = 2 := by
      rcases march_cases d with ⟨h, hmarch, -⟩ | ⟨h, hmarch, -⟩ <;> omega
    obtain ⟨hmarch, hyear⟩ : d.marchMonth = 11 ∧ d.marchYear + 1 = d.year := by
      rcases march_cases d with ⟨h, hmarch, hyear⟩ | ⟨h, hmarch, -⟩
      · rw [hmarch, hyear, hmonth]
        exact ⟨rfl, Int.sub_add_cancel _ _⟩
      · omega
    have hlength := daysBeforeMonth_add_february d.year
    rw [hmonth] at hday
    rw [hmarch, hyear]
    split at hlength <;> rename_i hleap
    · rw [if_pos hleap]
      omega
    · rw [if_neg hleap]
      omega

/-- An earlier day has a smaller number. -/
theorem dayNumber_lt_of_before {d e : Date} (hd : d.Valid) (he : e.Valid) (h : d.Before e) :
    d.dayNumber < e.dayNumber := by
  have hnumber := dayNumber_eq d
  have hnumber' := dayNumber_eq e
  have hfirst := he.2.2.1
  by_cases hyear : d.marchYear < e.marchYear
  · have hlt := dayNumber_lt hd
    have hmono := daysBeforeYear_mono (Int.add_one_le_of_lt hyear)
    omega
  · obtain ⟨hsame, hmonth⟩ : d.marchYear = e.marchYear ∧ (d.marchMonth < e.marchMonth ∨
        d.marchMonth = e.marchMonth ∧ d.day < e.day) := by
      have hmarch := march_cases d
      have hmarch' := march_cases e
      have hlast := hd.2.1
      have hone := he.1
      have hlast' := he.2.1
      unfold Before at h
      omega
    rw [hsame] at hnumber
    rcases hmonth with hmonth | ⟨hmonth, hday⟩
    · have hlast : e.marchMonth ≤ 11 := by
        have hmarch := march_cases e
        have hlast := he.2.1
        omega
      have hle := day_le hd (by omega)
      have hmono : daysBeforeMonth (d.marchMonth + 1) ≤ daysBeforeMonth e.marchMonth := by
        unfold daysBeforeMonth
        omega
      omega
    · rw [hmonth] at hnumber
      omega

theorem before_trichotomy (d e : Date) : d.Before e ∨ d = e ∨ e.Before d := by
  obtain ⟨year, month, day⟩ := d
  obtain ⟨year', month', day'⟩ := e
  simp only [Before, Date.mk.injEq]
  omega

theorem ofDayNumber_before {m n : Int} (h : m < n) : (ofDayNumber m).Before (ofDayNumber n) := by
  have hm := dayNumber_ofDayNumber m
  have hn := dayNumber_ofDayNumber n
  rcases before_trichotomy (ofDayNumber m) (ofDayNumber n) with hbefore | heq | hafter
  · exact hbefore
  · rw [heq] at hm
    omega
  · have hlt := dayNumber_lt_of_before (valid_ofDayNumber n) (valid_ofDayNumber m) hafter
    omega

end Date

end Calendar

end SpacedReview
