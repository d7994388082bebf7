import Mathlib.Data.List.DropRight
import SpacedReview.Decimal.Shortest
import SpacedReview.Proofs.Text.Numerals

/-!
# Number tokens are read back

A well-formed token is read back from its characters whatever stands behind it, as long as that
cannot be taken for a part of the number. The tokens of natural numbers are well formed, and so are
the shortest tokens of floats: no grid point in the rounding interval of a float is zero, so the
digits found never begin with a zero.

## Main definitions

- `Token.WellFormed` — the runs of digits that a number is written with
- `Token.Stops` — a text that does not go on with a number

## Main statements

- `Token.read?_write` — reading a token
- `Token.wellFormed_ofNat`, `Layout.wellFormed_token` — the tokens that are written
-/

namespace SpacedReview

namespace Decimal

open Numeral (isDigit digits isDigit_of_mem_digits)

/-- An exponent has digits, and nothing but a sign in front of them. -/
structure TokenExponent.WellFormed (e : TokenExponent) : Prop where
  sign : e.sign = none ∨ e.sign = some '+' ∨ e.sign = some '-'
  isDigit_digits : ∀ c ∈ e.digits, isDigit c
  digits_ne_nil : e.digits ≠ []

namespace Token

/-- The whole part has digits and no needless zero in front of them, and what else is written
    consists of digits too. -/
structure WellFormed (t : Token) : Prop where
  isDigit_whole : ∀ c ∈ t.whole, isDigit c
  whole_ne_nil : t.whole ≠ []
  whole_eq_zero : t.whole.head? = some '0' → t.whole = ['0']
  isDigit_fraction : ∀ c ∈ t.fraction, isDigit c
  exponent : ∀ e ∈ t.exponent, e.WellFormed

/-- The text does not begin with a character that a number could go on with. -/
def Stops (r : List Char) : Prop :=
  ∀ c ∈ r.head?, isDigit c = false ∧ c ≠ '.' ∧ c ≠ 'e' ∧ c ≠ 'E'

variable {r : List Char}

/-! ## The parts of a token -/

theorem readWhole?_append {ds : List Char} (hds : ∀ c ∈ ds, isDigit c) (hne : ds ≠ [])
    (hzero : ds.head? = some '0' → ds = ['0']) (hr : ∀ c ∈ r.head?, isDigit c = false) :
    readWhole? (ds ++ r) = some (ds, r) := by
  rw [readWhole?, Numeral.span_append hds hr]
  split
  · rename_i h
    exact absurd (Prod.mk.inj h).1 hne
  · rename_i h
    obtain ⟨rfl, -⟩ := Prod.mk.inj h
    cases hzero rfl
  · rename_i h
    cases h
    rfl

theorem readFraction?_append {ds : List Char} (hds : ∀ c ∈ ds, isDigit c)
    (hr : ∀ c ∈ r.head?, isDigit c = false ∧ c ≠ '.') :
    readFraction? ((if ds = [] then [] else '.' :: ds) ++ r) = some (ds, r) := by
  by_cases hne : ds = []
  · rw [if_pos hne, List.nil_append, hne]
    unfold readFraction?
    split
    · exact absurd rfl (hr '.' rfl).2
    · rfl
  · rw [if_neg hne, List.cons_append, readFraction?,
      Numeral.span_append hds fun c hc => (hr c hc).1]
    split
    · rename_i h
      exact absurd (Prod.mk.inj h).1 hne
    · rename_i h
      cases h
      rfl

theorem readExponentDigits?_append {ds : List Char} (sign : Option Char)
    (hds : ∀ c ∈ ds, isDigit c) (hne : ds ≠ []) (hr : ∀ c ∈ r.head?, isDigit c = false) :
    readExponentDigits? sign (ds ++ r) = some (some ⟨sign, ds⟩, r) := by
  rw [readExponentDigits?, Numeral.span_append hds hr]
  split
  · rename_i h
    exact absurd (Prod.mk.inj h).1 hne
  · rename_i h
    cases h
    rfl

theorem readExponent?_append {e : Option TokenExponent} (he : ∀ x ∈ e, x.WellFormed)
    (hr : Stops r) : readExponent? (writeExponent e ++ r) = some (e, r) := by
  obtain _ | ⟨sign, ds⟩ := e
  · obtain _ | ⟨c, r⟩ := r
    · rfl
    · obtain ⟨-, -, hlower, hupper⟩ := hr c rfl
      exact if_neg (not_or.2 ⟨hlower, hupper⟩)
  · obtain ⟨hsign, hds, hne⟩ := he _ rfl
    have hdigits := readExponentDigits?_append sign hds hne fun c hc => (hr c hc).1
    rw [writeExponent, List.cons_append, List.append_assoc]
    unfold readExponent?
    simp only [true_or, if_true]
    rcases hsign with rfl | rfl | rfl
    · -- Without a sign the first digit is not taken for one.
      obtain ⟨d, ds', rfl⟩ := List.exists_cons_of_ne_nil hne
      have hd : isDigit d := hds d List.mem_cons_self
      simp only [Option.toList_none, List.nil_append, List.cons_append] at hdigits ⊢
      split
      · rename_i h
        cases h
        exact absurd hd (by decide)
      · rename_i h
        cases h
        exact absurd hd (by decide)
      · exact hdigits
    · exact hdigits
    · exact hdigits

/-! ## Reading a token -/

/-- What is read behind the sign. -/
def readUnsigned? (negative : Bool) (cs : List Char) : Option (Token × List Char) := do
  let (whole, r) ← readWhole? cs
  let (fraction, r) ← readFraction? r
  let (exponent, r) ← readExponent? r
  return ({ negative, whole, fraction, exponent }, r)

theorem read?_minus (cs : List Char) : read? ('-' :: cs) = readUnsigned? true cs :=
  rfl

theorem read?_of_ne_minus {c : Char} (hc : c ≠ '-') (cs : List Char) :
    read? (c :: cs) = readUnsigned? false (c :: cs) := by
  unfold read?
  split
  rename_i h
  split at h
  · rename_i heq
    exact absurd (List.cons.inj heq).1 hc
  · cases h
    rfl

theorem forall_mem_head?_append {cs : List Char} {P : Char → Prop} (hcs : ∀ c ∈ cs.head?, P c)
    (hr : ∀ c ∈ r.head?, P c) : ∀ c ∈ (cs ++ r).head?, P c := by
  obtain _ | ⟨d, cs⟩ := cs
  · exact hr
  · exact hcs

theorem readUnsigned?_append {t : Token} (h : t.WellFormed) (hr : Stops r) :
    readUnsigned? t.negative (t.whole ++ ((if t.fraction = [] then [] else '.' :: t.fraction) ++
      (writeExponent t.exponent ++ r))) = some (t, r) := by
  -- Neither an exponent nor a fraction begins with what the part in front of it could go on with.
  have hexponent : ∀ c ∈ (writeExponent t.exponent ++ r).head?, isDigit c = false ∧ c ≠ '.' := by
    refine forall_mem_head?_append ?_ fun c hc => ⟨(hr c hc).1, (hr c hc).2.1⟩
    cases t.exponent with
    | none => rintro c ⟨⟩
    | some e =>
      rintro c ⟨⟩
      decide
  have hfraction : ∀ c ∈ ((if t.fraction = [] then [] else '.' :: t.fraction) ++
      (writeExponent t.exponent ++ r)).head?, isDigit c = false := by
    refine forall_mem_head?_append ?_ fun c hc => (hexponent c hc).1
    split
    · rintro c ⟨⟩
    · rintro c ⟨⟩
      decide
  rw [readUnsigned?, readWhole?_append h.isDigit_whole h.whole_ne_nil h.whole_eq_zero hfraction]
  simp only [Option.bind_eq_bind, Option.bind_some,
    readFraction?_append h.isDigit_fraction hexponent, readExponent?_append h.exponent hr, pure]

/-- A well-formed token is read back from its characters, whatever follows them. -/
theorem read?_write {t : Token} (h : t.WellFormed) (hr : Stops r) :
    read? (t.write ++ r) = some (t, r) := by
  have hread := readUnsigned?_append h hr
  rw [write, List.append_assoc, List.append_assoc, List.append_assoc]
  cases hsign : t.negative
  · rw [hsign] at hread
    obtain ⟨d, ds, hwhole⟩ := List.exists_cons_of_ne_nil h.whole_ne_nil
    have hd : d ≠ '-' := by
      rintro rfl
      have hdigit : isDigit '-' := h.isDigit_whole '-' (hwhole ▸ List.mem_cons_self)
      cases hdigit
    rw [hwhole, List.cons_append] at hread ⊢
    exact (read?_of_ne_minus hd _).trans hread
  · rw [hsign] at hread
    exact (read?_minus _).trans hread

/-- A well-formed token begins with a minus sign or a digit. -/
theorem WellFormed.exists_write_eq_cons {t : Token} (h : t.WellFormed) :
    ∃ c cs, t.write = c :: cs ∧ (c = '-' ∨ isDigit c) := by
  obtain ⟨d, ds, hd⟩ := List.exists_cons_of_ne_nil h.whole_ne_nil
  rw [write, hd]
  cases t.negative
  · refine ⟨d, _, rfl, .inr (h.isDigit_whole d ?_)⟩
    rw [hd]
    exact List.mem_cons_self
  · exact ⟨'-', _, rfl, .inl rfl⟩

theorem wellFormed_ofNat (n : Nat) : (ofNat n).WellFormed where
  isDigit_whole := isDigit_of_mem_digits n
  whole_ne_nil := Numeral.digits_ne_nil n
  whole_eq_zero h := by
    by_cases hn : n = 0
    · rw [hn]
      exact Numeral.digits_of_lt (by decide)
    · exact absurd h (Numeral.head?_digits hn)
  isDigit_fraction c hc := absurd hc List.not_mem_nil
  exponent e he := by cases he

end Token

/-! ## The digits of a float -/

/-- Zero does not round to a float other than zero. -/
theorem RoundingInterval.low_pos {x : Float} (h : (Binary64.magnitude x).1 ≠ 0) :
    0 < (RoundingInterval.of x).low := by
  have hbelow : (if (Binary64.magnitude x).1 = Binary64.leadingBit ∧
      -1074 < (Binary64.magnitude x).2 then 1 else 2) < 4 * (Binary64.magnitude x).1 := by
    split <;> omega
  unfold RoundingInterval.of
  refine Nat.mul_pos (Nat.sub_pos_of_lt hbelow) ?_
  split
  · exact Nat.two_pow_pos _
  · exact Nat.one_pos

theorem RoundingInterval.contains_timesPower_zero {i : RoundingInterval} (h : 0 < i.low)
    (power : Int) :
    i.contains (timesPower 0 power).1 (timesPower 0 power).2 = false := by
  have hzero : (timesPower 0 power).1 = 0 ∧ 0 < (timesPower 0 power).2 := by
    cases power with
    | ofNat k => exact ⟨Nat.zero_mul _, Nat.one_pos⟩
    | negSucc k => exact ⟨rfl, Nat.pow_pos (by decide)⟩
  have hlow := Nat.mul_pos h hzero.2
  rw [contains, hzero.1]
  simp only [Nat.zero_mul]
  split
  · simp [Nat.not_le.2 hlow]
  · simp

theorem RoundingInterval.onGrid?_ne_zero {i : RoundingInterval} (h : 0 < i.low) (power : Int) :
    i.onGrid? power ≠ some 0 := by
  have hout := contains_timesPower_zero h power
  unfold onGrid?
  intro hzero
  simp only at hzero
  split at hzero
  · cases hzero
  · rename_i hin _
    rw [Option.some.inj hzero, hout] at hin
    cases hin
  · exact absurd (Option.some.inj hzero) (Nat.succ_ne_zero _)
  · rename_i hin _
    split at hzero
    · rw [Option.some.inj hzero, hout] at hin
      cases hin
    · exact absurd (Option.some.inj hzero) (Nat.succ_ne_zero _)

/-- A search that finds no grid ends with zero; one that finds a grid does not. -/
theorem RoundingInterval.search_cases {i : RoundingInterval} (h : 0 < i.low) (top : Int)
    (count fuel : Nat) : i.search top count fuel = (0, 0) ∨ (i.search top count fuel).1 ≠ 0 := by
  induction fuel generalizing count with
  | zero => exact .inl rfl
  | succ fuel ih =>
    have hgrid := onGrid?_ne_zero h (top - count + 1)
    rw [search]
    split
    · rename_i n hn
      refine .inr ?_
      rintro hzero
      exact hgrid (hn.trans (congrArg some hzero))
    · exact ih (count + 1)

theorem isDigit_of_mem_dropTrailingZeros (n : Nat) :
    ∀ c ∈ dropTrailingZeros (digits n), isDigit c := fun c hc =>
  isDigit_of_mem_digits n c ((List.rdropWhile_prefix (· == '0') (digits n)).subset hc)

/-- Digits that begin with one other than zero keep it when the zeros at their end go. -/
theorem exists_dropTrailingZeros_eq_cons {c : Char} (h : c ≠ '0') (ds : List Char) :
    ∃ ds', dropTrailingZeros (c :: ds) = c :: ds' := by
  have hprefix : dropTrailingZeros (c :: ds) <+: c :: ds :=
    List.rdropWhile_prefix (· == '0') _
  have hne : dropTrailingZeros (c :: ds) ≠ [] := by
    intro hnil
    have hall := List.rdropWhile_eq_nil_iff.1 hnil c List.mem_cons_self
    exact h (beq_iff_eq.1 hall)
  obtain ⟨d, ds', hd⟩ := List.exists_cons_of_ne_nil hne
  rw [hd] at hprefix ⊢
  exact ⟨ds', by rw [(List.cons_prefix_cons.1 hprefix).1]⟩

/-- The digits of a float other than zero begin with one that is not zero, unless there are
    none. -/
theorem shortest_cases {x : Float} (h : (Binary64.magnitude x).1 ≠ 0) :
    shortest x = ([], 0) ∨ ∃ c ds, (shortest x).1 = c :: ds ∧ c ≠ '0' := by
  have hsearch := RoundingInterval.search_cases (RoundingInterval.low_pos h)
    (leadingPower (RoundingInterval.of x).value (RoundingInterval.of x).den) 1 17
  rw [shortest]
  simp only
  rcases hsearch with hzero | hne
  · have hdigits : digits 0 = ['0'] := Numeral.digits_of_lt (by decide)
    rw [hzero, hdigits]
    exact .inl rfl
  · refine .inr ?_
    have hhead := Numeral.head?_digits hne
    obtain ⟨c, ds, hds⟩ := List.exists_cons_of_ne_nil (Numeral.digits_ne_nil
      ((RoundingInterval.of x).search
        (leadingPower (RoundingInterval.of x).value (RoundingInterval.of x).den) 1 17).1)
    rw [hds] at hhead ⊢
    have hc : c ≠ '0' := fun h => hhead (congrArg some h)
    obtain ⟨ds', hdrop⟩ := exists_dropTrailingZeros_eq_cons hc ds
    exact ⟨c, ds', hdrop, hc⟩

theorem isDigit_of_mem_shortest (x : Float) : ∀ c ∈ (shortest x).1, isDigit c :=
  isDigit_of_mem_dropTrailingZeros _

/-! ## The token of a float -/

/-- Digits are put around the point with one on each side of it. -/
theorem aroundPoint_spec {ds : List Char} (top : Int) (hds : ∀ c ∈ ds, isDigit c)
    (h : ds = [] ∧ top = 0 ∨ ∃ c ds', ds = c :: ds' ∧ c ≠ '0') :
    (∀ c ∈ (aroundPoint ds top).1, isDigit c) ∧ (aroundPoint ds top).1 ≠ [] ∧
      ((aroundPoint ds top).1.head? = some '0' → (aroundPoint ds top).1 = ['0']) ∧
      ∀ c ∈ (aroundPoint ds top).2, isDigit c := by
  have hzeros (k : Nat) : ∀ c ∈ List.replicate k '0', isDigit c := fun c hc => by
    rw [List.eq_of_mem_replicate hc]
    decide
  cases top with
  | ofNat k =>
    have hwhole : ∀ c ∈ (aroundPoint ds (.ofNat k)).1, isDigit c := fun c hc =>
      (List.mem_append.1 hc).elim (fun hc => hds c (List.mem_of_mem_take hc)) (hzeros _ c)
    have hfraction : ∀ c ∈ (aroundPoint ds (.ofNat k)).2, isDigit c := by
      intro c hc
      simp only [aroundPoint] at hc
      split at hc
      · rw [List.mem_singleton.1 hc]
        decide
      · exact hds c (List.mem_of_mem_drop hc)
    refine ⟨hwhole, ?_⟩
    rcases h with ⟨rfl, hk⟩ | ⟨c, ds', rfl, hc⟩
    · obtain rfl : k = 0 := Int.ofNat.inj hk
      exact ⟨List.cons_ne_nil _ _, fun _ => rfl, hfraction⟩
    · exact ⟨List.cons_ne_nil _ _, fun h => absurd (Option.some.inj h) hc, hfraction⟩
  | negSucc k =>
    refine ⟨hzeros 1, List.cons_ne_nil _ _, fun _ => rfl, fun c hc => ?_⟩
    exact (List.mem_append.1 hc).elim (hzeros k c) (hds c)

/-- A float is written as a well-formed token by every layout that writes small numbers
    plainly. -/
theorem Layout.wellFormed_token {l : Layout} (hleast : l.leastPlain ≤ 0) (hmost : 0 ≤ l.mostPlain)
    (hplus : l.plusSign = none ∨ l.plusSign = some '+') (x : Float) : (l.token x).WellFormed := by
  have hone : ∀ c ∈ ['0'], isDigit c := by
    rw [List.forall_mem_singleton]
    decide
  rw [token]
  by_cases hzero : (Binary64.magnitude x).1 = 0
  · rw [if_pos hzero]
    exact ⟨hone, List.cons_ne_nil _ _, fun _ => rfl, hone, fun e he => by cases he⟩
  rw [if_neg hzero]
  have hds := isDigit_of_mem_shortest x
  have hcases := shortest_cases hzero
  simp only
  split
  · obtain ⟨hwhole, hne, hlead, hfraction⟩ :=
      aroundPoint_spec (shortest x).2 hds <| hcases.imp_left fun h => by
        rw [h]
        exact ⟨rfl, rfl⟩
    exact ⟨hwhole, hne, hlead, hfraction, fun e he => by cases he⟩
  · rename_i hout
    rcases hcases with hnone | ⟨c, ds, hshortest, hc⟩
    · rw [hnone] at hout
      exact absurd ⟨hleast, hmost⟩ hout
    · rw [hshortest] at hds ⊢
      rw [List.forall_mem_cons] at hds
      refine ⟨fun d hd => ?_, List.cons_ne_nil _ _, fun h => absurd (Option.some.inj h) hc,
        fun d hd => hds.2 d hd, ?_⟩
      · rw [List.mem_singleton.1 hd]
        exact hds.1
      · rintro e ⟨⟩
        refine ⟨?_, isDigit_of_mem_digits _, Numeral.digits_ne_nil _⟩
        simp only
        split
        · exact .inr (.inr rfl)
        · exact hplus.imp_right .inl

end Decimal

end SpacedReview
