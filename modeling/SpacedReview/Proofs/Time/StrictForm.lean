import Mathlib.Data.List.TakeWhile
import Mathlib.Data.Option.Basic
import SpacedReview.Proofs.Time.Stamps

/-!
# What a timestamp denotes

A timestamp spells the fields of a date, a time of day and a zone in fixed widths, with a fraction
of any length that counts down to the nanosecond. The fields name an instant if the day and the
time of day exist. The strict reader accepts exactly the texts that denote an instant and returns
the instant that they denote.

## Main definitions

- `StampReader.Spells` — the fields that some characters spell
- `StampReader.Fields.Names` — the instant that fields name
- `Instant.Denotes` — the instant that a text denotes

## Main statements

- `StampReader.strict?_eq_some` — reading fields
- `Instant.readStrict?_eq_some` — reading a timestamp
-/

namespace SpacedReview

namespace StampReader

/-! ## The form -/

/-- A run of digits of a width. -/
def IsRun (width : Nat) (ds : List Char) : Prop :=
  ds.length = width ∧ ∀ c ∈ ds, Numeral.isDigit c

/-- A fraction of a second: nothing, or a point and digits. It is cut to the nanosecond. -/
inductive SpellsFraction : List Char → Nat → Prop
  | none : SpellsFraction [] 0
  | digits {ds : List Char} (hne : ds ≠ []) (hds : ∀ c ∈ ds, Numeral.isDigit c) :
      SpellsFraction ('.' :: ds) (Numeral.value ds * 10 ^ 9 / 10 ^ ds.length)

/-- A zone: universal time, or the hours and minutes that local time is ahead of it or behind. -/
inductive SpellsZone : List Char → Int → Prop
  | universal {c : Char} (hc : c = 'Z' ∨ c = 'z') : SpellsZone [c] 0
  | ahead {hours minutes : List Char} (hhours : IsRun 2 hours) (hminutes : IsRun 2 minutes)
      (hlt : Numeral.value minutes < 60) : SpellsZone ('+' :: (hours ++ ':' :: minutes))
        (Numeral.value hours * 3600 + Numeral.value minutes * 60)
  | behind {c : Char} {hours minutes : List Char} (hc : c = '-' ∨ c = '\u2212')
      (hhours : IsRun 2 hours) (hminutes : IsRun 2 minutes) (hlt : Numeral.value minutes < 60) :
      SpellsZone (c :: (hours ++ ':' :: minutes))
        (-(Numeral.value hours * 3600 + Numeral.value minutes * 60))

/-- The characters are the fields in their order, with the marks between them. -/
inductive Spells : List Char → Fields → Prop
  | intro {year month day hour minute second fraction zone : List Char} {t : Char} {nano : Nat}
      {offset : Int} (hyear : IsRun 4 year) (hmonth : IsRun 2 month) (hday : IsRun 2 day)
      (ht : t = 'T' ∨ t = 't' ∨ t = ' ') (hhour : IsRun 2 hour) (hminute : IsRun 2 minute)
      (hsecond : IsRun 2 second) (hfraction : SpellsFraction fraction nano)
      (hzone : SpellsZone zone offset) :
      Spells (year ++ '-' :: (month ++ '-' :: (day ++ t :: (hour ++ ':' :: (minute ++
          ':' :: (second ++ (fraction ++ zone)))))))
        { year := Numeral.value year, month := Numeral.value month, day := Numeral.value day,
          hour := Numeral.value hour, minute := Numeral.value minute,
          second := Numeral.value second, nano, offset }

/-- The second of local time that the fields name, with a leap second counted as the one before
    it. -/
def Fields.localSecond (f : Fields) : Int :=
  (⟨f.year, f.month, f.day⟩ : Calendar.Date).dayNumber * 86400 + f.hour * 3600 + f.minute * 60 +
    min f.second 59

/-- The fields name the instant: the day and the time of day exist, and the instant is as far from
    local time as the zone says. -/
structure Fields.Names (f : Fields) (t : Instant) : Prop where
  date : (⟨f.year, f.month, f.day⟩ : Calendar.Date).Valid
  hour_lt : f.hour < 24
  minute_lt : f.minute < 60
  second_le : f.second ≤ 60
  /-- Local time, too, lies in the range of instants. -/
  inRange : Instant.firstSecond ≤ f.localSecond ∧ f.localSecond ≤ Instant.lastSecond
  offset_lt : f.offset.natAbs < 86400
  second_eq : t.second = f.localSecond - f.offset
  nano_eq : t.nano = f.nano + if f.second = 60 then 1000000000 else 0

/-! ## Reading the form -/

variable {cs r : List Char} {n nano : Nat} {offset : Int}

theorem mark?_eq_some {c : Char} : mark? c cs = some r ↔ cs = c :: r := by
  cases cs with
  | nil => simp [mark?]
  | cons d cs =>
    rw [mark?, Option.ite_none_right_eq_some, Option.some.injEq, List.cons.injEq]

theorem between?_eq_some :
    between? cs = some r ↔ ∃ c, (c = 'T' ∨ c = 't' ∨ c = ' ') ∧ cs = c :: r := by
  cases cs with
  | nil => simp [between?]
  | cons d cs =>
    rw [between?, Option.ite_none_right_eq_some, Option.some.injEq]
    constructor
    · rintro ⟨hd, rfl⟩
      exact ⟨d, hd, rfl⟩
    · rintro ⟨c, hc, heq⟩
      obtain ⟨rfl, rfl⟩ := List.cons.inj heq
      exact ⟨hc, rfl⟩

/-- A field of a width up to eighteen has a value in the range of the reader. -/
theorem number?_eq_some {width : Nat} (hlimit : 10 ^ width ≤ fieldLimit) :
    number? width width cs = some (n, r) ↔
      ∃ ds, IsRun width ds ∧ Numeral.value ds = n ∧ cs = ds ++ r := by
  constructor
  · intro h
    unfold number? at h
    rw [Option.ite_none_right_eq_some, Option.some.injEq, Prod.mk.injEq] at h
    obtain ⟨⟨hleast, -⟩, rfl, rfl⟩ := h
    -- All characters that are taken are digits, for there are no more than the width.
    have hrun : (cs.take width).takeWhile Numeral.isDigit = cs.take width := by
      refine (List.takeWhile_prefix _).eq_of_length_le ?_
      exact (List.length_take_le width cs).trans hleast
    have hdigits : ∀ c ∈ cs.take width, Numeral.isDigit c := by
      rw [← hrun]
      exact fun c hc => List.mem_takeWhile_imp hc
    rw [hrun] at hleast ⊢
    have hlen : (cs.take width).length = width :=
      Nat.le_antisymm (List.length_take_le width cs) hleast
    exact ⟨cs.take width, ⟨hlen, hdigits⟩, rfl, by rw [hlen, List.take_append_drop]⟩
  · rintro ⟨ds, ⟨rfl, hds⟩, rfl, rfl⟩
    exact number?_append hds le_rfl le_rfl (.inl rfl)
      ((Numeral.value_lt_pow hds).le.trans hlimit)

/-- The digits that count are those that the nanosecond leaves of a fraction. -/
theorem value_take_nine {ds : List Char} (hds : ∀ c ∈ ds, Numeral.isDigit c) :
    Numeral.value (ds.take 9) * 10 ^ (9 - (ds.take 9).length) =
      Numeral.value ds * 10 ^ 9 / 10 ^ ds.length := by
  rcases Nat.le_total ds.length 9 with hle | hle
  · have hpow : 10 ^ 9 = 10 ^ (9 - ds.length) * 10 ^ ds.length := by
      rw [← Nat.pow_add, Nat.sub_add_cancel hle]
    rw [List.take_of_length_le hle, hpow, ← Nat.mul_assoc,
      Nat.mul_div_cancel _ (Nat.pow_pos (by decide))]
  · have hlen : (ds.take 9).length = 9 := List.length_take_of_le hle
    have hvalue : Numeral.value ds = Numeral.value (ds.take 9) * 10 ^ (ds.drop 9).length +
        Numeral.value (ds.drop 9) := by
      rw [← Numeral.value_append, List.take_append_drop]
    have hrest : Numeral.value (ds.drop 9) < 10 ^ (ds.drop 9).length :=
      Numeral.value_lt_pow fun c hc => hds c (List.mem_of_mem_drop hc)
    have hpow : 10 ^ ds.length = 10 ^ (ds.drop 9).length * 10 ^ 9 := by
      rw [← Nat.pow_add, List.length_drop, Nat.sub_add_cancel hle]
    have hcut : Numeral.value ds / 10 ^ (ds.drop 9).length = Numeral.value (ds.take 9) := by
      rw [hvalue, Nat.mul_comm, Nat.mul_add_div (Nat.pow_pos (by decide)), Nat.div_eq_of_lt hrest,
        Nat.add_zero]
    rw [hlen, hpow, Nat.mul_div_mul_right _ _ (Nat.pow_pos (by decide)), hcut, Nat.sub_self,
      Nat.pow_zero, Nat.mul_one]

theorem fraction?_point (cs : List Char) : fraction? ('.' :: cs) =
    if (cs.takeWhile Numeral.isDigit).take 9 = [] then none
    else some (Numeral.value (cs.takeWhile Numeral.isDigit) * 10 ^ 9 /
      10 ^ (cs.takeWhile Numeral.isDigit).length, cs.dropWhile Numeral.isDigit) := by
  have hdigits : ∀ c ∈ cs.takeWhile Numeral.isDigit, Numeral.isDigit c :=
    fun c hc => List.mem_takeWhile_imp hc
  have hvalue := value_take_nine hdigits
  rw [← hvalue, List.take_takeWhile]
  by_cases h : (cs.take 9).takeWhile Numeral.isDigit = []
  · rw [fraction?, guard, if_pos h, if_neg (not_not.2 h)]
    rfl
  · rw [fraction?, guard, if_neg h, if_pos h]
    rfl

theorem spellsFraction_of_fraction? (h : fraction? cs = some (nano, r)) :
    ∃ front, SpellsFraction front nano ∧ cs = front ++ r := by
  by_cases hpoint : ∃ rest, cs = '.' :: rest
  · obtain ⟨rest, rfl⟩ := hpoint
    rw [fraction?_point, Option.ite_none_left_eq_some, Option.some.injEq, Prod.mk.injEq] at h
    obtain ⟨hne, rfl, rfl⟩ := h
    refine ⟨'.' :: rest.takeWhile Numeral.isDigit, .digits ?_ fun c hc => ?_, ?_⟩
    · rintro hnil
      exact hne (by rw [hnil, List.take_nil])
    · exact List.mem_takeWhile_imp hc
    · rw [List.cons_append, List.takeWhile_append_dropWhile]
  · unfold fraction? at h
    split at h
    · exact absurd ⟨_, rfl⟩ hpoint
    · obtain ⟨rfl, rfl⟩ := Prod.mk.inj (Option.some.inj h)
      exact ⟨[], .none, rfl⟩

/-- A fraction ends where neither a point nor a digit follows. -/
theorem SpellsFraction.fraction? {front : List Char} (h : SpellsFraction front nano)
    (hr : ∀ c ∈ r.head?, Numeral.isDigit c = false ∧ c ≠ '.') :
    fraction? (front ++ r) = some (nano, r) := by
  cases h with
  | none =>
    rw [List.nil_append]
    unfold StampReader.fraction?
    split
    · exact absurd rfl (hr '.' rfl).2
    · rfl
  | @digits ds hne hds =>
    obtain ⟨htake, hdrop⟩ := Prod.mk.inj (Numeral.span_append hds fun c hc => (hr c hc).1)
    have hnine : ds.take 9 ≠ [] := by simpa using hne
    rw [List.cons_append, fraction?_point, htake, hdrop, if_neg hnine]

/-- A zone begins with a mark that is no part of a fraction. -/
theorem SpellsZone.head {zone : List Char} (h : SpellsZone zone offset) :
    ∀ c ∈ zone.head?, Numeral.isDigit c = false ∧ c ≠ '.' := by
  cases h with
  | @universal c hc =>
    rintro _ ⟨⟩
    rcases hc with rfl | rfl <;> decide
  | ahead =>
    rintro _ ⟨⟩
    decide
  | @behind c _ _ hc =>
    rintro _ ⟨⟩
    rcases hc with rfl | rfl <;> decide

theorem number?_two : number? 2 2 cs = some (n, r) ↔
    ∃ ds, IsRun 2 ds ∧ Numeral.value ds = n ∧ cs = ds ++ r :=
  number?_eq_some (by decide)

theorem number?_four : number? 4 4 cs = some (n, r) ↔
    ∃ ds, IsRun 4 ds ∧ Numeral.value ds = n ∧ cs = ds ++ r :=
  number?_eq_some (by decide)

theorem sign?_eq_some {negative : Bool} : sign? cs = some (negative, r) ↔
    negative = false ∧ cs = '+' :: r ∨
      negative = true ∧ ∃ c, (c = '-' ∨ c = '\u2212') ∧ cs = c :: r := by
  constructor
  · intro h
    unfold sign? at h
    split at h
    · obtain ⟨rfl, rfl⟩ := Prod.mk.inj (Option.some.inj h)
      exact .inl ⟨rfl, rfl⟩
    · obtain ⟨rfl, rfl⟩ := Prod.mk.inj (Option.some.inj h)
      exact .inr ⟨rfl, '-', .inl rfl, rfl⟩
    · obtain ⟨rfl, rfl⟩ := Prod.mk.inj (Option.some.inj h)
      exact .inr ⟨rfl, '\u2212', .inr rfl, rfl⟩
    · cases h
  · rintro (⟨rfl, rfl⟩ | ⟨rfl, c, rfl | rfl, rfl⟩) <;> rfl

/-- The hours and minutes behind a sign. -/
theorem offset?_of_sign {negative : Bool} {rest : List Char}
    (hsign : sign? cs = some (negative, rest)) :
    offset? (mark? ':') cs = some (offset, r) ↔ ∃ hours minutes, IsRun 2 hours ∧ IsRun 2 minutes ∧
      Numeral.value minutes < 60 ∧ rest = hours ++ ':' :: (minutes ++ r) ∧
      offset = if negative then -(Numeral.value hours * 3600 + Numeral.value minutes * 60 : Int)
        else Numeral.value hours * 3600 + Numeral.value minutes * 60 := by
  unfold offset?
  split
  · cases hsign
  · cases hsign
  · simp only [hsign, Option.bind_eq_bind, Option.bind_some, Option.bind_eq_some_iff, Prod.exists,
      number?_two, mark?_eq_some]
    constructor
    · rintro ⟨_, _, ⟨hours, hhours, rfl, rfl⟩, _, rfl, _, _, ⟨minutes, hminutes, rfl, rfl⟩, ⟨⟩, hlt,
        heq⟩
      obtain ⟨rfl, rfl⟩ := Prod.mk.inj (Option.some.inj heq)
      exact ⟨hours, minutes, hhours, hminutes, (Option.guard_eq_some' _).1 hlt, rfl, rfl⟩
    · rintro ⟨hours, minutes, hhours, hminutes, hlt, rfl, rfl⟩
      exact ⟨_, _, ⟨hours, hhours, rfl, rfl⟩, _, rfl, _, _, ⟨minutes, hminutes, rfl, rfl⟩, (),
        (Option.guard_eq_some' _).2 hlt, rfl⟩

theorem offset?_eq_some : offset? (mark? ':') cs = some (offset, r) ↔
    ∃ zone, SpellsZone zone offset ∧ cs = zone ++ r := by
  constructor
  · intro h
    cases hsign : sign? cs with
    | none =>
      unfold offset? at h
      split at h
      · obtain ⟨rfl, rfl⟩ := Prod.mk.inj (Option.some.inj h)
        exact ⟨['Z'], .universal (.inl rfl), rfl⟩
      · obtain ⟨rfl, rfl⟩ := Prod.mk.inj (Option.some.inj h)
        exact ⟨['z'], .universal (.inr rfl), rfl⟩
      · rw [hsign] at h
        cases h
    | some signed =>
      obtain ⟨negative, rest⟩ := signed
      obtain ⟨hours, minutes, hhours, hminutes, hlt, rfl, rfl⟩ := (offset?_of_sign hsign).1 h
      rcases sign?_eq_some.1 hsign with ⟨rfl, rfl⟩ | ⟨rfl, c, hc, rfl⟩
      · exact ⟨_, .ahead hhours hminutes hlt, by simp⟩
      · exact ⟨_, .behind hc hhours hminutes hlt, by simp⟩
  · rintro ⟨zone, hzone, rfl⟩
    cases hzone with
    | universal hc => rcases hc with rfl | rfl <;> rfl
    | @ahead hours minutes hhours hminutes hlt =>
      exact (offset?_of_sign rfl).2
        ⟨hours, minutes, hhours, hminutes, hlt, List.append_assoc hours _ r, rfl⟩
    | @behind c hours minutes hc hhours hminutes hlt =>
      exact (offset?_of_sign (sign?_eq_some.2 (.inr ⟨rfl, c, hc, rfl⟩))).2
        ⟨hours, minutes, hhours, hminutes, hlt, List.append_assoc hours _ r, rfl⟩

/-- The strict reader takes exactly the characters that spell fields. -/
theorem strict?_eq_some {f : Fields} : strict? cs = some f ↔ Spells cs f := by
  simp only [strict?, Option.bind_eq_bind, Option.bind_eq_some_iff, Prod.exists, number?_two,
    number?_four, mark?_eq_some, between?_eq_some]
  constructor
  · rintro ⟨_, _, ⟨year, hyear, rfl, rfl⟩, _, rfl, _, _, ⟨month, hmonth, rfl, rfl⟩, _, rfl, _, _,
      ⟨day, hday, rfl, rfl⟩, _, ⟨t, ht, rfl⟩, _, _, ⟨hour, hhour, rfl, rfl⟩, _, rfl, _, _,
      ⟨minute, hminute, rfl, rfl⟩, _, rfl, _, _, ⟨second, hsecond, rfl, rfl⟩, nano, _, hnano,
      offset, _, hoffset, ⟨⟩, hend, heq⟩
    obtain ⟨fraction, hfraction, rfl⟩ := spellsFraction_of_fraction? hnano
    obtain ⟨zone, hzone, rfl⟩ := offset?_eq_some.1 hoffset
    obtain rfl := (Option.guard_eq_some' _).1 hend
    obtain rfl := Option.some.inj heq
    rw [List.append_nil]
    exact .intro hyear hmonth hday ht hhour hminute hsecond hfraction hzone
  · rintro ⟨hyear, hmonth, hday, ht, hhour, hminute, hsecond, hfraction, hzone⟩
    refine ⟨_, _, ⟨_, hyear, rfl, rfl⟩, _, rfl, _, _, ⟨_, hmonth, rfl, rfl⟩, _, rfl, _, _,
      ⟨_, hday, rfl, rfl⟩, _, ⟨_, ht, rfl⟩, _, _, ⟨_, hhour, rfl, rfl⟩, _, rfl, _, _,
      ⟨_, hminute, rfl, rfl⟩, _, rfl, _, _, ⟨_, hsecond, rfl, rfl⟩, _, _,
      hfraction.fraction? hzone.head, _, [], offset?_eq_some.2 ⟨_, hzone, ?_⟩, (),
      (Option.guard_eq_some' _).2 rfl, rfl⟩
    rw [List.append_nil]

/-! ## Naming an instant -/

theorem Fields.localSecond?_eq_some {f : Fields} {here : Int} :
    f.localSecond? = some here ↔ ((⟨f.year, f.month, f.day⟩ : Calendar.Date).Valid ∧ f.hour < 24 ∧
      f.minute < 60 ∧ f.second ≤ 60) ∧ f.localSecond = here := by
  rw [localSecond?, Option.ite_none_right_eq_some, Option.some.injEq]
  refine and_congr_right fun _ => ?_
  have hsum : f.localSecond = (⟨f.year, f.month, f.day⟩ : Calendar.Date).dayNumber *
      Instant.secondsPerDay + (f.hour * 3600 + f.minute * 60 + min f.second 59 : Nat) := by
    simp only [localSecond, Instant.secondsPerDay]
    omega
  rw [hsum]

theorem of?_eq_some {second : Int} {t : Instant} :
    Instant.of? second nano = some t ↔ t.second = second ∧ t.nano = nano := by
  constructor
  · intro h
    unfold Instant.of? at h
    split at h
    · obtain rfl := Option.some.inj h
      exact ⟨rfl, rfl⟩
    · cases h
  · rintro ⟨rfl, rfl⟩
    exact dif_pos ⟨⟨t.first_le, t.le_last⟩, t.nano_lt, t.leap_ends_minute⟩

theorem Fields.instant?_eq_some {f : Fields} {t : Instant} : f.instant? = some t ↔ f.Names t := by
  simp only [instant?, Option.bind_eq_bind, Option.bind_eq_some_iff, localSecond?_eq_some,
    of?_eq_some]
  constructor
  · rintro ⟨_, ⟨⟨hdate, hhour, hminute, hsecond⟩, rfl⟩, ⟨⟩, hrange, ⟨⟩, hoffset, hinstant, hnano⟩
    exact ⟨hdate, hhour, hminute, hsecond, (Option.guard_eq_some' _).1 hrange,
      (Option.guard_eq_some' _).1 hoffset, hinstant, hnano⟩
  · rintro ⟨hdate, hhour, hminute, hsecond, hrange, hoffset, hinstant, hnano⟩
    exact ⟨_, ⟨⟨hdate, hhour, hminute, hsecond⟩, rfl⟩, (), (Option.guard_eq_some' _).2 hrange, (),
      (Option.guard_eq_some' _).2 hoffset, hinstant, hnano⟩

end StampReader

namespace Instant

/-- The text spells fields that name the instant. -/
def Denotes (text : String) (t : Instant) : Prop :=
  ∃ f, StampReader.Spells text.toList f ∧ f.Names t

/-- The strict reader returns exactly the instant that a text denotes. -/
theorem readStrict?_eq_some {text : String} {t : Instant} :
    readStrict? text = some t ↔ Denotes text t := by
  rw [readStrict?, Option.bind_eq_some_iff]
  simp only [StampReader.strict?_eq_some, StampReader.Fields.instant?_eq_some]
  rfl

end Instant

end SpacedReview
