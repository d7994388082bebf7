import Mathlib.Logic.Function.Basic
import SpacedReview.Settings.Basic
import SpacedReview.Proofs.Store.Rows
import SpacedReview.Proofs.Text.Typed

/-!
# Settings can be used

Whatever the variables hold, a learner gets settings: there is some time between two polls, and a
session waits for at least two of them. What a variable sets is kept as it is, only a timeout that
is too short is raised, and a variable that sets nothing counts as one that is not there.

A timing of arbitrary spans has one limit. Twice its interval has to be a span.

## Main definitions

- `Settings.ComesTo` — what the value of one variable comes to
- `Settings.Follows` — the settings are those that some variables make
- `Settings.Unusable` — a variable that sets nothing
- `Timing.IsUsable` — a session can run on the timing

## Main statements

- `Timing.normalize_eq_ok`, `Timing.normalize_eq_error` — normalizing a timing
- `Settings.read_eq_ok` — reading the variables
- `Settings.read_usable` — every learner has usable settings
-/

namespace SpacedReview

/-! ## Spans -/

namespace Span

theorem eq_of_nanos : {a b : Span} → a.nanos = b.nanos → a = b
  | ⟨_, _⟩, ⟨_, _⟩, rfl => rfl

theorem ofNanos?_eq_some {n : Nat} {s : Span} : ofNanos? n = some s ↔ s.nanos = n := by
  unfold ofNanos?
  constructor
  · intro h
    split at h
    · obtain rfl := Option.some.inj h
      rfl
    · cases h
  · rintro rfl
    rw [dif_pos s.le_longest]

theorem ofNanos?_eq_none {n : Nat} : ofNanos? n = none ↔ longest < n := by
  rw [ofNanos?]
  split
  · rename_i h
    exact iff_of_false (by simp) (by omega)
  · rename_i h
    exact iff_of_true rfl (by omega)

/-- Twice the span has more seconds than a count of 64 bits holds, those included that the two
    parts of a second make up. -/
def DoublesBeyond (s : Span) : Prop :=
  Numeral.word64Limit < 2 * s.seconds + 2 * s.subsecond / 1000000000

theorem doublesBeyond_iff {s : Span} : s.DoublesBeyond ↔ longest < 2 * s.nanos := by
  simp only [DoublesBeyond, seconds, subsecond, longest, Numeral.word64Limit]
  omega

theorem double?_eq_none {s : Span} : s.double? = none ↔ s.DoublesBeyond :=
  ofNanos?_eq_none.trans doublesBeyond_iff.symm

@[simp]
theorem nanos_ofMillis (ms : UInt64) : (ofMillis ms).nanos = ms.toNat * 1000000 :=
  rfl

/-- Twice a number of milliseconds is far from the end of the range. -/
theorem not_doublesBeyond_ofMillis (ms : UInt64) : ¬ (ofMillis ms).DoublesBeyond := by
  have := ms.toNat_lt
  rw [doublesBeyond_iff, nanos_ofMillis, longest]
  omega

end Span

/-! ## Timings -/

namespace Timing

/-- There is some time between two polls, and the session waits for at least two of them. -/
structure IsUsable (t : Timing) : Prop where
  nanos_pos : 0 < t.pollInterval.nanos
  two_polls_le : 2 * t.pollInterval.nanos ≤ t.loadingTimeout.nanos

theorem nanos_usableInterval_pos (s : Span) : 0 < (usableInterval s).nanos := by
  rw [usableInterval]
  split
  · decide
  · omega

theorem usableInterval_of_pos {s : Span} (h : 0 < s.nanos) : usableInterval s = s :=
  if_neg (by omega)

/-- A timing that can be normalized keeps its interval if there is one, and its timeout is raised
    to two intervals where it is shorter. -/
theorem normalize_eq_ok {t u : Timing} :
    normalize t = .ok u ↔ u.pollInterval = usableInterval t.pollInterval ∧
      u.loadingTimeout.nanos = max t.loadingTimeout.nanos (2 * u.pollInterval.nanos) := by
  have hextent (least : Span) : (if t.loadingTimeout.nanos < least.nanos then least
      else t.loadingTimeout).nanos = max t.loadingTimeout.nanos least.nanos := by
    split <;> omega
  cases hdouble : (usableInterval t.pollInterval).double? with
  | none =>
    -- A timeout cannot be as long as twice an interval that is too long.
    have hlong := Span.ofNanos?_eq_none.1 hdouble
    refine iff_of_false (by simp [normalize, hdouble]) ?_
    rintro ⟨hinterval, htimeout⟩
    have := u.loadingTimeout.le_longest
    rw [hinterval] at htimeout
    omega
  | some least =>
    have hleast : least.nanos = 2 * (usableInterval t.pollInterval).nanos :=
      Span.ofNanos?_eq_some.1 hdouble
    simp only [normalize, hdouble]
    constructor
    · intro h
      obtain rfl := Except.ok.inj h
      exact ⟨rfl, (hextent least).trans (by rw [hleast])⟩
    · obtain ⟨interval, timeout⟩ := u
      rintro ⟨rfl, htimeout⟩
      refine congrArg Except.ok (congrArg (Timing.mk _) (Span.eq_of_nanos ?_))
      rw [hextent, hleast]
      exact htimeout.symm

theorem normalize_eq_error {t : Timing} :
    normalize t = .error .intervalTooLong ↔ (usableInterval t.pollInterval).DoublesBeyond := by
  rw [← Span.double?_eq_none, normalize]
  split <;> simp_all

theorem isUsable_of_normalize {t u : Timing} (h : normalize t = .ok u) : u.IsUsable := by
  obtain ⟨hinterval, htimeout⟩ := normalize_eq_ok.1 h
  refine ⟨hinterval ▸ nanos_usableInterval_pos _, ?_⟩
  rw [htimeout]
  exact le_max_right _ _

/-- A usable timing stays as it is. -/
theorem normalize_of_isUsable {t : Timing} (h : t.IsUsable) : normalize t = .ok t :=
  normalize_eq_ok.2
    ⟨(usableInterval_of_pos h.nanos_pos).symm, (max_eq_left h.two_polls_le).symm⟩

/-- Normalizing once is enough. -/
theorem normalize_bind_normalize (t : Timing) : (normalize t >>= normalize) = normalize t := by
  cases h : normalize t with
  | error e => rfl
  | ok u => exact normalize_of_isUsable (isUsable_of_normalize h)

end Timing

/-! ## Variables -/

namespace Settings

/-- The text sets a number of milliseconds: a positive number of 64 bits, with blanks around
    it. -/
def SetsMillis (text : String) (ms : UInt64) : Prop :=
  0 < ms.toNat ∧
    ∃ numeral, Text.Encloses text.toList numeral ∧ Numeral.IsUnsigned numeral ms.toNat

/-- The text sets the chance of recall: a float between zero and one, with blanks around it. -/
def SetsRecall (text : String) (chance : Float) : Prop :=
  (0.0 < chance ∧ chance < 1.0) ∧ ∃ numeral, Text.Encloses text.toList numeral ∧
    Text.IsTight numeral ∧ Decimal.readFloat? (String.ofList numeral) = some chance

/-- What a variable comes to: what its value sets, or else what is usual. -/
inductive ComesTo {α : Type} (Sets : String → α → Prop) (usual : α) : Option String → α → Prop
  | set {text : String} {a : α} (h : Sets text a) : ComesTo Sets usual (some text) a
  | unset : ComesTo Sets usual none usual
  | unusable {text : String} (h : ∀ a, ¬ Sets text a) : ComesTo Sets usual (some text) usual

/-- The settings are those that the variables make, each of the three on its own. -/
structure Follows (lookup : String → Option String) (s : Settings) : Prop where
  interval : ∃ ms, ComesTo SetsMillis Timing.standardInterval (lookup intervalVariable) ms ∧
    s.timing.pollInterval = .ofMillis ms
  /-- The timeout is what its own variable comes to, or two intervals if that is more. -/
  timeout : ∃ ms, ComesTo SetsMillis Timing.standardTimeout (lookup timeoutVariable) ms ∧
    s.timing.loadingTimeout.nanos =
      max (Span.ofMillis ms).nanos (2 * s.timing.pollInterval.nanos)
  retention : ComesTo SetsRecall Curve.standardRetention (lookup retentionVariable) s.retention
  folder : s.folder = none

/-- The variable, one of the three, sets nothing. -/
inductive Unusable (lookup : String → Option String) : String → Prop
  | interval (h : ∀ text ∈ lookup intervalVariable, ∀ ms, ¬ SetsMillis text ms) :
      Unusable lookup intervalVariable
  | timeout (h : ∀ text ∈ lookup timeoutVariable, ∀ ms, ¬ SetsMillis text ms) :
      Unusable lookup timeoutVariable
  | retention (h : ∀ text ∈ lookup retentionVariable, ∀ chance, ¬ SetsRecall text chance) :
      Unusable lookup retentionVariable

theorem millis?_eq_some {text : String} {ms : UInt64} :
    millis? text = some ms ↔ SetsMillis text ms := by
  have hlimit (ms : UInt64) : ms.toNat ≤ Numeral.word64Limit := Nat.le_of_lt_succ ms.toNat_lt
  constructor
  · intro h
    unfold millis? at h
    split at h
    · cases h
    · rename_i n hzero hread
      obtain ⟨hn, hle⟩ := Numeral.readUnsigned?_eq_some.1 hread
      obtain rfl := Option.some.inj h
      have hvalue : (UInt64.ofNat n).toNat = n :=
        UInt64.toNat_ofNat_of_lt' (Nat.lt_succ_of_le hle)
      refine ⟨?_, _, (Text.encloses_trim text).1, hvalue.symm ▸ hn⟩
      rw [hvalue]
      exact Nat.pos_of_ne_zero hzero
    · cases h
  · rintro ⟨hpos, numeral, henclosed, hn⟩
    have htrim := Text.trim_of_encloses henclosed hn.isTight
    have hread : Numeral.readUnsigned? Numeral.word64Limit (Text.trim text) = some ms.toNat := by
      rw [htrim, Numeral.readUnsigned?_eq_some, String.toList_ofList]
      exact ⟨hn, hlimit ms⟩
    unfold millis?
    rw [hread]
    split
    · rename_i h0
      exact absurd (Option.some.inj h0) (by omega)
    · rename_i n _ hn
      obtain rfl := Option.some.inj hn
      rw [UInt64.ofNat_toNat]
    · rename_i h
      cases h

example : SetsMillis "\t+0250 " 250 :=
  millis?_eq_some.1 (by decide)

theorem retention?_eq_some {text : String} {chance : Float} :
    retention? text = some chance ↔ SetsRecall text chance := by
  constructor
  · intro h
    unfold retention? at h
    split at h
    · rename_i x hread
      split at h
      · rename_i hrange
        obtain rfl := Option.some.inj h
        obtain ⟨henclosed, htight⟩ := Text.encloses_trim text
        refine ⟨hrange, (Text.trim text).toList, henclosed, htight, ?_⟩
        rw [String.ofList_toList, hread]
      · cases h
    · cases h
  · rintro ⟨hrange, numeral, henclosed, htight, hread⟩
    rw [retention?, Text.trim_of_encloses henclosed htight, hread]
    dsimp only
    rw [if_pos hrange]

section Values

variable {α : Type} {Sets : String → α → Prop} {read? : String → Option α} {usual a : α}
  {value : Option String}

/-- Nothing is read from a value that sets nothing. -/
theorem bind_eq_none_of_unusable (hread : ∀ {text a}, read? text = some a ↔ Sets text a)
    (h : ∀ text ∈ value, ∀ a, ¬ Sets text a) : value.bind read? = none := by
  rw [Option.bind_eq_none_iff]
  intro text htext
  exact Option.eq_none_iff_forall_ne_some.2 fun a ha => h text htext a (hread.1 ha)

/-- What a reader makes of the value of a variable. -/
theorem comesTo_iff (hread : ∀ {text a}, read? text = some a ↔ Sets text a) :
    ComesTo Sets usual value a ↔ (value.bind read?).getD usual = a := by
  constructor
  · intro h
    cases h with
    | set h => rw [Option.bind_some, hread.2 h, Option.getD_some]
    | unset => rfl
    | @unusable text h =>
      have hnone : (some text).bind read? = none :=
        bind_eq_none_of_unusable hread (by simpa using h)
      rw [hnone, Option.getD_none]
  · rintro rfl
    cases value with
    | none => exact .unset
    | some text =>
      cases ha : read? text with
      | none =>
        rw [Option.bind_some, ha]
        exact .unusable fun a hset => by simp [hread.2 hset] at ha
      | some a =>
        rw [Option.bind_some, ha]
        exact .set (hread.1 ha)

end Values

/-- A variable that sets some time, if only its usual one, leaves the interval as it is. -/
theorem usableInterval_of_comesTo {usual ms : UInt64} {value : Option String}
    (h : ComesTo SetsMillis usual value ms) (husual : 0 < usual.toNat) :
    Timing.usableInterval (.ofMillis ms) = .ofMillis ms := by
  have hpos : 0 < ms.toNat := by
    cases h with
    | set h => exact h.1
    | unset => exact husual
    | unusable => exact husual
  refine Timing.usableInterval_of_pos ?_
  rw [Span.nanos_ofMillis]
  omega

theorem comesTo_millis (usual : UInt64) (value : Option String) :
    ComesTo SetsMillis usual value ((value.bind millis?).getD usual) :=
  (comesTo_iff millis?_eq_some).2 rfl

/-- Reading the variables gives the settings that they make and no others. -/
theorem read_eq_ok {lookup : String → Option String} {s : Settings} :
    read lookup = .ok s ↔ Follows lookup s := by
  have hinterval := usableInterval_of_comesTo
    (comesTo_millis Timing.standardInterval (lookup intervalVariable)) (by decide)
  constructor
  · intro h
    obtain ⟨timing, htiming, hs⟩ := bind_eq_ok.1 h
    obtain rfl := Except.ok.inj hs
    obtain ⟨hpoll, hloading⟩ := Timing.normalize_eq_ok.1 htiming
    exact ⟨⟨_, comesTo_millis .., hpoll.trans hinterval⟩, ⟨_, comesTo_millis .., hloading⟩,
      (comesTo_iff retention?_eq_some).2 rfl, rfl⟩
  · obtain ⟨timing, retention, folder⟩ := s
    rintro ⟨⟨interval, hcomes, hpoll⟩, ⟨timeout, hwaits, hloading⟩, hrecall, rfl⟩
    obtain rfl := (comesTo_iff millis?_eq_some).1 hcomes
    obtain rfl := (comesTo_iff millis?_eq_some).1 hwaits
    obtain rfl := (comesTo_iff retention?_eq_some).1 hrecall
    refine bind_eq_ok.2 ⟨timing, Timing.normalize_eq_ok.2 ?_, rfl⟩
    exact ⟨hpoll.trans hinterval.symm, hloading⟩

/-- No variables are refused. -/
theorem exists_read_eq_ok (lookup : String → Option String) : ∃ s, read lookup = .ok s := by
  have hinterval := usableInterval_of_comesTo
    (comesTo_millis Timing.standardInterval (lookup intervalVariable)) (by decide)
  cases h : Timing.normalize ⟨.ofMillis _, .ofMillis
      (((lookup timeoutVariable).bind millis?).getD Timing.standardTimeout)⟩ with
  | error e =>
    cases e
    have hlong := Timing.normalize_eq_error.1 h
    rw [hinterval] at hlong
    exact absurd hlong (Span.not_doublesBeyond_ofMillis _)
  | ok timing => exact ⟨_, bind_eq_ok.2 ⟨timing, h, rfl⟩⟩

theorem read_congr {lookup other : String → Option String}
    (hinterval : (lookup intervalVariable).bind millis? = (other intervalVariable).bind millis?)
    (htimeout : (lookup timeoutVariable).bind millis? = (other timeoutVariable).bind millis?)
    (hretention : (lookup retentionVariable).bind retention? =
      (other retentionVariable).bind retention?) : read lookup = read other := by
  rw [read, hinterval, htimeout, hretention, read]

/-- A variable that sets nothing counts as one that is not there. -/
theorem Unusable.read_update {lookup : String → Option String} {name : String}
    (h : Unusable lookup name) : read (Function.update lookup name none) = read lookup := by
  have hother {other : String} (hne : other ≠ name) :
      Function.update lookup name none other = lookup other := Function.update_of_ne hne none lookup
  cases h with
  | interval h =>
    refine read_congr ?_ (by rw [hother (by decide)]) (by rw [hother (by decide)])
    rw [Function.update_self, bind_eq_none_of_unusable millis?_eq_some h, Option.bind_none]
  | timeout h =>
    refine read_congr (by rw [hother (by decide)]) ?_ (by rw [hother (by decide)])
    rw [Function.update_self, bind_eq_none_of_unusable millis?_eq_some h, Option.bind_none]
  | retention h =>
    refine read_congr (by rw [hother (by decide)]) (by rw [hother (by decide)]) ?_
    rw [Function.update_self, bind_eq_none_of_unusable retention?_eq_some h, Option.bind_none]

/-- Every learner gets settings. They are the ones that the three variables make, each on its own,
    a session can run on their timing, and a variable that sets nothing has the effect of one that
    is not there. A timing of arbitrary spans is refused exactly if twice its interval is beyond
    the longest span; a normalized one is normal. -/
theorem read_usable (lookup : String → Option String) (t : Timing) :
    (∃ s, read lookup = .ok s ∧ Follows lookup s ∧ s.timing.IsUsable) ∧
      (∀ name, Unusable lookup name → read (Function.update lookup name none) = read lookup) ∧
      (Timing.normalize t = .error .intervalTooLong ↔
        (Timing.usableInterval t.pollInterval).DoublesBeyond) ∧
      (Timing.normalize t >>= Timing.normalize) = Timing.normalize t := by
  refine ⟨?_, fun name h => h.read_update, Timing.normalize_eq_error,
    Timing.normalize_bind_normalize t⟩
  obtain ⟨s, hs⟩ := exists_read_eq_ok lookup
  obtain ⟨timing, htiming, hmade⟩ := bind_eq_ok.1 hs
  obtain rfl := Except.ok.inj hmade
  exact ⟨_, hs, read_eq_ok.1 hs, Timing.isUsable_of_normalize htiming⟩

end Settings

end SpacedReview
