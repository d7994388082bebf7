import SpacedReview.Proofs.Text.Numerals
import SpacedReview.Proofs.Time.Dates
import SpacedReview.Proofs.Time.Instants
import SpacedReview.Time.Stamp
import SpacedReview.Time.StampReader

/-!
# Timestamps of six digits

In the years 0 to 9999 a timestamp has fields of fixed widths, so timestamps come in the order of
the microseconds that they name, leap seconds included, and each of them is read back as the
instant that it was written for, cut to the microsecond.

## Main statements

- `Instant.microStamp_le_iff`, `Instant.compare_microStamp` — the order of timestamps
- `Instant.readStrict?_microStamp` — reading a timestamp
-/

namespace SpacedReview

namespace Instant

/-- The year has four digits. -/
def HasPlainYear (t : Instant) : Prop :=
  0 ≤ t.date.year ∧ t.date.year ≤ 9999

instance (t : Instant) : Decidable t.HasPlainYear :=
  inferInstanceAs (Decidable (_ ∧ _))

variable {a b t : Instant}

theorem year_mono (h : a.second ≤ b.second) : a.date.year ≤ b.date.year := by
  have hday : a.day ≤ b.day := Int.ediv_le_ediv (by decide) h
  rcases Int.lt_or_eq_of_le hday with hlt | heq
  · rcases Calendar.Date.ofDayNumber_before hlt with hyear | ⟨hyear, -⟩
    · exact hyear.le
    · exact hyear.le
  · show (Calendar.Date.ofDayNumber a.day).year ≤ (Calendar.Date.ofDayNumber b.day).year
    rw [heq]

/-- The years between two years with four digits have four digits. -/
theorem HasPlainYear.of_between (ha : a.HasPlainYear) (hb : b.HasPlainYear)
    (hat : a.second ≤ t.second) (htb : t.second ≤ b.second) : t.HasPlainYear :=
  ⟨ha.1.trans (year_mono hat), (year_mono htb).trans hb.2⟩

/-- The years from the first to the last instant. -/
theorem year_bounds (t : Instant) : -262143 ≤ t.date.year ∧ t.date.year ≤ 262142 := by
  have hfirst : (⟨firstSecond, 0, by decide, by decide, by decide, by decide⟩ : Instant).date.year =
      -262143 := by decide
  have hlast : (⟨lastSecond, 0, by decide, by decide, by decide, by decide⟩ : Instant).date.year =
      262142 := by decide
  rw [← hfirst, ← hlast]
  exact ⟨year_mono t.first_le, year_mono t.le_last⟩

/-! ## The fields of a timestamp -/

/-- The second of the minute, 60 for a leap second. -/
def lastField (t : Instant) : Nat :=
  t.timeOfDay % 60 + if t.isLeap then 1 else 0

/-- The microseconds into the second. -/
def microField (t : Instant) : Nat :=
  t.nano % nanosPerSecond / 1000

theorem timeOfDay_lt (t : Instant) : t.timeOfDay < 86400 := by
  show (t.second % 86400).toNat < 86400
  omega

theorem second_eq (t : Instant) : t.second = t.day * 86400 + t.timeOfDay := by
  show t.second = t.second / 86400 * 86400 + ((t.second % 86400).toNat : Int)
  omega

/-- A leap second ends a minute, and its microseconds are counted from its own start. -/
theorem lastField_cases (t : Instant) :
    t.nano < 1000000000 ∧ t.lastField = t.timeOfDay % 60 ∧ t.microField = t.nano / 1000 ∨
      1000000000 ≤ t.nano ∧ t.timeOfDay % 60 = 59 ∧ t.lastField = 60 ∧
        t.microField = (t.nano - 1000000000) / 1000 := by
  have hlt := t.nano_lt
  have hmicro : t.microField = t.nano % 1000000000 / 1000 := rfl
  by_cases h : t.isLeap
  · have hnano : 1000000000 ≤ t.nano := h
    have hends := t.leap_ends_minute h
    have hsecond := t.second_eq
    have hlast : t.lastField = t.timeOfDay % 60 + 1 := by rw [lastField, if_pos h]
    omega
  · have hnano : ¬ 1000000000 ≤ t.nano := h
    have hlast : t.lastField = t.timeOfDay % 60 + 0 := by rw [lastField, if_neg h]
    omega

theorem date_valid (t : Instant) : t.date.Valid :=
  Calendar.Date.valid_ofDayNumber _

theorem date_bounds (t : Instant) : t.date.month < 100 ∧ t.date.day < 100 := by
  obtain ⟨-, hmonth, -, hday⟩ := t.date_valid
  have hdays : Calendar.daysIn t.date.year t.date.month ≤ 31 := by
    unfold Calendar.daysIn
    split
    · split <;> decide
    all_goals decide
  omega

theorem toList_microStamp (h : t.HasPlainYear) : t.microStamp.toList =
    Numeral.padded 4 t.date.year.toNat ++ '-' :: (Numeral.padded 2 t.date.month ++
      '-' :: (Numeral.padded 2 t.date.day ++ 'T' :: (Numeral.padded 2 (t.timeOfDay / 3600) ++
        ':' :: (Numeral.padded 2 (t.timeOfDay / 60 % 60) ++ ':' :: (Numeral.padded 2 t.lastField ++
          '.' :: (Numeral.padded 6 t.microField ++ ['Z'])))))) := by
  have hyear : yearText t.date.year = Numeral.padded 4 t.date.year.toNat := if_pos h
  rw [microStamp, String.toList_ofList, secondText, hyear]
  simp only [List.append_assoc, List.cons_append, lastField, microField]

theorem microStamp_cut (t : Instant) : t.cut.microStamp = t.microStamp := by
  have hleap : t.cut.isLeap ↔ t.isLeap := by
    show 1000000000 ≤ t.nano / 1000 * 1000 ↔ 1000000000 ≤ t.nano
    omega
  have hmicro : t.cut.nano % nanosPerSecond / 1000 = t.nano % nanosPerSecond / 1000 := by
    show t.nano / 1000 * 1000 % 1000000000 / 1000 = t.nano % 1000000000 / 1000
    omega
  have hsecond : t.cut.secondText = t.secondText := by
    simp only [secondText, hleap]
    rfl
  rw [microStamp, microStamp, hmicro, hsecond]

/-! ## Order -/

theorem cons_lt_cons_iff (c : Char) (r s : List Char) : c :: r < c :: s ↔ r < s := by
  rw [List.cons_lt_cons_iff]
  simp

theorem microStamp_lt_of_lt (ha : a.HasPlainYear) (hb : b.HasPlainYear) (h : a.cut < b.cut) :
    a.microStamp < b.microStamp := by
  have hadate := a.date_bounds
  have hbdate := b.date_bounds
  have haday := a.timeOfDay_lt
  have hbday := b.timeOfDay_lt
  have halast := a.lastField_cases
  have hblast := b.lastField_cases
  have hanano := a.nano_lt
  have hbnano := b.nano_lt
  have hayear : a.date.year.toNat < 10 ^ 4 := by
    have := ha.2
    omega
  have hbyear : b.date.year.toNat < 10 ^ 4 := by
    have := hb.2
    omega
  -- All fields have fixed widths, so the texts are compared field by field from the year on.
  rw [String.lt_iff_toList_lt, toList_microStamp ha, toList_microStamp hb,
    Numeral.padded_append_lt_iff _ _ (by decide) hayear hbyear, cons_lt_cons_iff,
    Numeral.padded_append_lt_iff _ _ (by decide) hadate.1 hbdate.1, cons_lt_cons_iff,
    Numeral.padded_append_lt_iff _ _ (by decide) hadate.2 hbdate.2, cons_lt_cons_iff,
    Numeral.padded_append_lt_iff _ _ (by decide) (by omega) (by omega), cons_lt_cons_iff,
    Numeral.padded_append_lt_iff _ _ (by decide) (by omega) (by omega), cons_lt_cons_iff,
    Numeral.padded_append_lt_iff _ _ (by decide) (by omega) (by omega), cons_lt_cons_iff,
    Numeral.padded_append_lt_iff _ _ (by decide) (by omega) (by omega)]
  have hasecond := a.second_eq
  have hbsecond := b.second_eq
  rw [lt_iff] at h
  change a.second < b.second ∨
    a.second = b.second ∧ a.nano / 1000 * 1000 < b.nano / 1000 * 1000 at h
  by_cases hday : a.day < b.day
  · have hbefore : a.date.Before b.date := Calendar.Date.ofDayNumber_before hday
    unfold Calendar.Date.Before at hbefore
    have hafirst := ha.1
    have hbfirst := hb.1
    omega
  · have hsame : a.day = b.day := by omega
    have hdate : a.date = b.date := by rw [date, date, hsame]
    rw [hdate]
    clear hadate hbdate hayear hbyear
    -- On one day the fields of the date are the same, and the clock decides.
    refine .inr ⟨rfl, .inr ⟨rfl, .inr ⟨rfl, ?_⟩⟩⟩
    rcases h with h | ⟨h, hmicro⟩
    · -- An earlier second of the day is not a leap second if it is of the same minute.
      clear hanano hbnano
      omega
    · have htime : a.timeOfDay = b.timeOfDay := by omega
      rw [htime] at halast ⊢
      omega

theorem microStamp_eq_of_cut_eq (h : a.cut = b.cut) : a.microStamp = b.microStamp := by
  rw [← microStamp_cut a, h, microStamp_cut]

/-- Timestamps come in the order of the microseconds that they name. -/
theorem compare_microStamp (ha : a.HasPlainYear) (hb : b.HasPlainYear) :
    compare a.microStamp b.microStamp = compare a.cut b.cut := by
  rcases lt_trichotomy a.cut b.cut with h | h | h
  · rw [compare_eq_lt.2 h, Std.LawfulLTCmp.eq_lt_iff_lt]
    exact microStamp_lt_of_lt ha hb h
  · have hstamp : compare a.microStamp b.microStamp = .eq := by
      rw [microStamp_eq_of_cut_eq h]
      exact Std.ReflCmp.compare_self
    rw [hstamp, h]
    exact Std.ReflCmp.compare_self.symm
  · rw [compare_eq_gt.2 h, Std.OrientedCmp.gt_iff_lt, Std.LawfulLTCmp.eq_lt_iff_lt]
    exact microStamp_lt_of_lt hb ha h

theorem microStamp_le_iff (ha : a.HasPlainYear) (hb : b.HasPlainYear) :
    a.microStamp ≤ b.microStamp ↔ a.cut ≤ b.cut := by
  have hlt : compare b.microStamp a.microStamp = .lt ↔ b.microStamp < a.microStamp :=
    Std.LawfulLTCmp.eq_lt_iff_lt
  rw [le_iff_not_lt, ← compare_eq_lt, ← compare_microStamp hb ha, hlt, not_lt]

end Instant

/-! ## Reading -/

namespace StampReader

/-- A field is read from its digits if they are as many as it takes at most, or no digit follows. -/
theorem number?_append {least most : Nat} {ds r : List Char} (hds : ∀ c ∈ ds, Numeral.isDigit c)
    (hleast : least ≤ ds.length) (hmost : ds.length ≤ most)
    (hr : ds.length = most ∨ ∀ c ∈ r.head?, Numeral.isDigit c = false)
    (hlimit : Numeral.value ds ≤ fieldLimit) :
    number? least most (ds ++ r) = some (Numeral.value ds, r) := by
  have hrest : (r.take (most - ds.length)).takeWhile Numeral.isDigit = [] := by
    refine Numeral.takeWhile_eq_nil fun c hc => ?_
    rcases hr with heq | hr
    · rw [heq, Nat.sub_self] at hc
      cases hc
    · rw [List.head?_take] at hc
      split at hc
      · cases hc
      · exact hr c hc
  have hrun : ((ds ++ r).take most).takeWhile Numeral.isDigit = ds := by
    rw [List.take_append, List.take_of_length_le hmost, List.takeWhile_append_of_pos hds, hrest,
      List.append_nil]
  rw [number?, hrun, if_pos ⟨hleast, hlimit⟩, List.drop_left]

theorem number?_padded {w n : Nat} (r : List Char) (hw : 0 < w) (hn : n < 10 ^ w)
    (hlimit : n ≤ fieldLimit) : number? w w (Numeral.padded w n ++ r) = some (n, r) := by
  have hlen := Numeral.length_padded hw hn
  have hvalue := Numeral.value_padded w n
  have hread := number?_append (r := r) (Numeral.isDigit_of_mem_padded w n) hlen.ge hlen.le
    (.inl hlen) (hvalue.symm ▸ hlimit)
  rwa [hvalue] at hread

theorem number?_eq_none {w : Nat} {c : Char} (hw : 0 < w)
    (hc : Numeral.isDigit c = false) (cs : List Char) : number? w w (c :: cs) = none := by
  obtain ⟨k, rfl⟩ := Nat.exists_eq_succ_of_ne_zero (Nat.pos_iff_ne_zero.1 hw)
  have hds : ((c :: cs).take (k + 1)).takeWhile Numeral.isDigit = [] := by
    rw [List.take_succ_cons, List.takeWhile_cons_of_neg (by simp [hc])]
  rw [number?, hds, if_neg (by simp)]

theorem fraction?_padded {w n : Nat} (hw : 0 < w) (hmost : w ≤ 9) (hn : n < 10 ^ w) :
    fraction? ('.' :: (Numeral.padded w n ++ ['Z'])) = some (n * 10 ^ (9 - w), ['Z']) := by
  have hlen : (Numeral.padded w n).length = w := Numeral.length_padded hw hn
  have hdigits := Numeral.isDigit_of_mem_padded w n
  have hds : ((Numeral.padded w n ++ ['Z']).take 9).takeWhile Numeral.isDigit =
      Numeral.padded w n := by
    have hrest : ((['Z'] : List Char).take (9 - w)).takeWhile Numeral.isDigit = [] := by
      obtain _ | k := 9 - w <;> rfl
    rw [List.take_append, hlen, List.take_of_length_le (hlen.trans_le hmost),
      List.takeWhile_append_of_pos hdigits, hrest, List.append_nil]
  have hdrop : (Numeral.padded w n ++ ['Z']).dropWhile Numeral.isDigit = ['Z'] :=
    List.dropWhile_append_of_pos hdigits
  have hne : Numeral.padded w n ≠ [] := fun h => by
    rw [h] at hlen
    exact absurd hlen (Nat.ne_of_lt hw)
  simp [fraction?, hds, hdrop, hne, hlen, Numeral.value_padded, guard]

theorem mark?_self (c : Char) (r : List Char) : mark? c (c :: r) = some r :=
  if_pos rfl

theorem between?_mark (r : List Char) : between? ('T' :: r) = some r := by
  rw [between?, if_pos (.inl rfl)]

end StampReader

namespace Instant

variable {t : Instant}

theorem bind_eq_of_eq_some {α β : Type} {x : Option α} {f : α → Option β} {a : α} (h : x = some a) :
    x >>= f = f a := by
  rw [h]
  rfl

/-- Each field is read back from its digits, in the order in which they are written. -/
theorem strict?_microStamp (h : t.HasPlainYear) : StampReader.strict? t.microStamp.toList = some
    { year := t.date.year, month := t.date.month, day := t.date.day, hour := t.timeOfDay / 3600,
      minute := t.timeOfDay / 60 % 60, second := t.lastField, nano := t.microField * 1000,
      offset := 0 } := by
  have hdate := t.date_bounds
  have hday := t.timeOfDay_lt
  have hlast := t.lastField_cases
  have hnano := t.nano_lt
  have hyear := h.2
  have hfirst : (t.date.year.toNat : Int) = t.date.year := Int.toNat_of_nonneg h.1
  have hlimit : 10 ^ 6 ≤ StampReader.fieldLimit := by decide
  have hfields {n : Nat} (hn : n < 100) (r : List Char) :
      StampReader.number? 2 2 (Numeral.padded 2 n ++ r) = some (n, r) :=
    StampReader.number?_padded r (by decide) hn (by omega)
  rw [toList_microStamp h]
  refine (bind_eq_of_eq_some
    (StampReader.number?_padded _ (by decide) (by omega) (by omega))).trans ?_
  refine (bind_eq_of_eq_some (StampReader.mark?_self '-' _)).trans ?_
  refine (bind_eq_of_eq_some (hfields hdate.1 _)).trans ?_
  refine (bind_eq_of_eq_some (StampReader.mark?_self '-' _)).trans ?_
  refine (bind_eq_of_eq_some (hfields hdate.2 _)).trans ?_
  refine (bind_eq_of_eq_some (StampReader.between?_mark _)).trans ?_
  refine (bind_eq_of_eq_some (hfields (by omega) _)).trans ?_
  refine (bind_eq_of_eq_some (StampReader.mark?_self ':' _)).trans ?_
  refine (bind_eq_of_eq_some (hfields (by omega) _)).trans ?_
  refine (bind_eq_of_eq_some (StampReader.mark?_self ':' _)).trans ?_
  refine (bind_eq_of_eq_some (hfields (by omega) _)).trans ?_
  refine (bind_eq_of_eq_some (StampReader.fraction?_padded (by decide) (by decide)
    (by omega))).trans ?_
  rw [hfirst]
  rfl

/-- The fields of an instant's second and some nanoseconds name the instant with these. -/
theorem instant?_fields {u : Instant} {nano : Nat} (hsecond : u.second = t.second)
    (hnano : nano + (if t.isLeap then nanosPerSecond else 0) = u.nano) :
    StampReader.Fields.instant?
      { year := t.date.year, month := t.date.month, day := t.date.day, hour := t.timeOfDay / 3600,
        minute := t.timeOfDay / 60 % 60, second := t.lastField, nano, offset := 0 } = some u := by
  have hday := t.timeOfDay_lt
  have hlast := t.lastField_cases
  have hclock := t.second_eq
  have hnumber : (⟨t.date.year, t.date.month, t.date.day⟩ : Calendar.Date).dayNumber = t.day :=
    Calendar.Date.dayNumber_ofDayNumber t.day
  have hhere : StampReader.Fields.localSecond?
      { year := t.date.year, month := t.date.month, day := t.date.day, hour := t.timeOfDay / 3600,
        minute := t.timeOfDay / 60 % 60, second := t.lastField, nano, offset := 0 } =
      some u.second := by
    have hexists : Calendar.Date.Valid ⟨t.date.year, t.date.month, t.date.day⟩ ∧
        t.timeOfDay / 3600 < 24 ∧ t.timeOfDay / 60 % 60 < 60 ∧ t.lastField ≤ 60 :=
      ⟨t.date_valid, by omega, by omega, by omega⟩
    have htime : t.timeOfDay / 3600 * 3600 + t.timeOfDay / 60 % 60 * 60 + min t.lastField 59 =
        t.timeOfDay := by omega
    simp only [StampReader.Fields.localSecond?, if_pos hexists, hnumber, htime, hsecond, hclock]
    rfl
  -- The second 60 is the leap second, whose nanoseconds are counted from a billion on.
  have hleap : (if t.lastField = 60 then nanosPerSecond else 0) =
      if t.isLeap then nanosPerSecond else 0 := by
    have hiff : t.lastField = 60 ↔ t.isLeap := by
      show t.lastField = 60 ↔ 1000000000 ≤ t.nano
      omega
    simp only [hiff]
  have hrange : firstSecond ≤ u.second ∧ u.second ≤ lastSecond := ⟨u.first_le, u.le_last⟩
  have hzone : (0 : Int).natAbs < secondsPerDay := by decide
  have hof : of? u.second u.nano = some u := dif_pos ⟨hrange, u.nano_lt, u.leap_ends_minute⟩
  rw [StampReader.Fields.instant?, hhere]
  simp only [Option.bind_eq_bind, Option.bind_some, guard, hrange, and_self, if_true, hleap, hnano,
    Int.sub_zero, hzone, hof]
  rfl

/-- A timestamp is read back as its instant, cut to the microsecond. -/
theorem readStrict?_microStamp (h : t.HasPlainYear) : readStrict? t.microStamp = some t.cut := by
  have hlast := t.lastField_cases
  have hsecond : t.cut.second = t.second := rfl
  have hnano : t.microField * 1000 + (if t.isLeap then nanosPerSecond else 0) = t.cut.nano := by
    show t.microField * 1000 + (if 1000000000 ≤ t.nano then 1000000000 else 0) =
      t.nano / 1000 * 1000
    split <;> omega
  rw [readStrict?, strict?_microStamp h, Option.bind_some, instant?_fields hsecond hnano]

/-- A timestamp with a signed year is not one of the strict form. -/
theorem hasPlainYear_of_readStrict? {u : Instant} (h : readStrict? t.microStamp = some u) :
    t.HasPlainYear := by
  by_contra hplain
  have hyear : yearText t.date.year = (if t.date.year < 0 then '-' else '+') ::
      Numeral.padded 4 t.date.year.natAbs := if_neg hplain
  have hsign : Numeral.isDigit (if t.date.year < 0 then '-' else '+') = false := by
    split <;> rfl
  obtain ⟨rest, hstamp⟩ : ∃ rest, t.microStamp.toList =
      (if t.date.year < 0 then '-' else '+') :: rest := by
    rw [microStamp, String.toList_ofList, secondText, hyear]
    exact ⟨_, rfl⟩
  have hnone : StampReader.strict? t.microStamp.toList = none := by
    rw [hstamp, StampReader.strict?, StampReader.number?_eq_none (by decide) hsign]
    rfl
  rw [readStrict?, hnone] at h
  cases h

end Instant

end SpacedReview
