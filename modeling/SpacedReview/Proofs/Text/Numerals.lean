import Mathlib.Data.String.Basic
import SpacedReview.Text.Numeral

/-!
# Numerals and their order

A numeral is read back as the number that it was written for. Of two runs of equally many digits,
the one that comes first as a text stands for the smaller number.

## Main statements

- `Numeral.value_padded` — reading a padded numeral
- `Numeral.padded_append_lt_iff` — texts that begin with padded numerals of one width
-/

namespace SpacedReview

namespace Numeral

/-! ## Digits -/

theorem isDigit_digitChar {d : Nat} (h : d < 10) : isDigit (digitChar d) := by
  have hall : ∀ d < 10, isDigit (digitChar d) := by decide
  exact hall d h

theorem digitValue_digitChar {d : Nat} (h : d < 10) : digitValue (digitChar d) = d := by
  have hall : ∀ d < 10, digitValue (digitChar d) = d := by decide
  exact hall d h

theorem isDigit_iff {c : Char} : isDigit c ↔ 48 ≤ c.toNat ∧ c.toNat ≤ 57 := by
  rw [isDigit, Bool.and_eq_true, decide_eq_true_iff, decide_eq_true_iff]
  exact Iff.rfl

theorem digitValue_lt {c : Char} (h : isDigit c) : digitValue c < 10 := by
  have hc := isDigit_iff.1 h
  show c.toNat - 48 < 10
  omega

theorem digitValue_lt_iff {c d : Char} (hc : isDigit c) (hd : isDigit d) :
    digitValue c < digitValue d ↔ c < d := by
  have hc := isDigit_iff.1 hc
  have hd := isDigit_iff.1 hd
  have hlt : c < d ↔ c.toNat < d.toNat := Iff.rfl
  rw [hlt]
  show c.toNat - 48 < d.toNat - 48 ↔ _
  omega

theorem digitValue_inj {c d : Char} (hc : isDigit c) (hd : isDigit d) :
    digitValue c = digitValue d ↔ c = d := by
  have hc := isDigit_iff.1 hc
  have hd := isDigit_iff.1 hd
  constructor
  · intro h
    have heq : c.toNat - 48 = d.toNat - 48 := h
    exact Char.toNat_inj.1 (by omega)
  · rintro rfl
    rfl

/-! ## Writing -/

theorem digitsBefore_append (n : Nat) (rest more : List Char) :
    digitsBefore n rest ++ more = digitsBefore n (rest ++ more) := by
  induction n, rest using digitsBefore.induct with
  | case1 n rest h => rw [digitsBefore, if_pos h, digitsBefore, if_pos h, List.cons_append]
  | case2 n rest h ih =>
    rw [digitsBefore, if_neg h, digitsBefore.eq_def n, if_neg h, ih, List.cons_append]

theorem digits_of_lt {n : Nat} (h : n < 10) : digits n = [digitChar n] := by
  rw [digits, digitsBefore, if_pos h]

theorem digits_of_le {n : Nat} (h : 10 ≤ n) :
    digits n = digits (n / 10) ++ [digitChar (n % 10)] := by
  rw [digits, digitsBefore, if_neg (Nat.not_lt.2 h), digits, digitsBefore_append, List.nil_append]

theorem isDigit_of_mem_digits (n : Nat) : ∀ c ∈ digits n, isDigit c := by
  induction n using Nat.strongRecOn with
  | ind n ih =>
    by_cases h : n < 10
    · rw [digits_of_lt h]
      intro c hc
      rw [List.mem_singleton.1 hc]
      exact isDigit_digitChar h
    · rw [digits_of_le (Nat.not_lt.1 h)]
      intro c hc
      rcases List.mem_append.1 hc with hc | hc
      · exact ih (n / 10) (by omega) c hc
      · rw [List.mem_singleton.1 hc]
        exact isDigit_digitChar (by omega)

theorem digits_ne_nil (n : Nat) : digits n ≠ [] := by
  by_cases h : n < 10
  · rw [digits_of_lt h]
    exact List.cons_ne_nil _ _
  · rw [digits_of_le (Nat.not_lt.1 h)]
    simp

/-- Only the numeral of zero begins with a zero. -/
theorem head?_digits {n : Nat} (hn : n ≠ 0) : (digits n).head? ≠ some '0' := by
  induction n using Nat.strongRecOn with
  | ind n ih =>
    by_cases h : n < 10
    · rw [digits_of_lt h]
      have hall : ∀ d < 10, d ≠ 0 → [digitChar d].head? ≠ some '0' := by decide
      exact hall n h hn
    · have hfront := ih (n / 10) (by omega) (by omega)
      rw [digits_of_le (Nat.not_lt.1 h), List.head?_append_of_ne_nil _ (digits_ne_nil _)]
      exact hfront

theorem length_digits_le {n w : Nat} (hw : 0 < w) (h : n < 10 ^ w) : (digits n).length ≤ w := by
  induction w generalizing n with
  | zero => omega
  | succ w ih =>
    by_cases hn : n < 10
    · rw [digits_of_lt hn]
      exact hw
    · have hw' : 0 < w := by
        rcases Nat.eq_zero_or_pos w with rfl | hw'
        · omega
        · exact hw'
      have hdiv : n / 10 < 10 ^ w := by
        rw [Nat.div_lt_iff_lt_mul (by omega), ← Nat.pow_succ]
        exact h
      rw [digits_of_le (Nat.not_lt.1 hn), List.length_append, List.length_singleton]
      exact Nat.succ_le_succ (ih hw' hdiv)

theorem pow_length_digits_le {n : Nat} (hn : n ≠ 0) : 10 ^ ((digits n).length - 1) ≤ n := by
  induction n using Nat.strongRecOn with
  | ind n ih =>
    by_cases h : n < 10
    · rw [digits_of_lt h]
      exact Nat.one_le_iff_ne_zero.2 hn
    · have hfront := ih (n / 10) (by omega) (by omega)
      have hlen := List.length_pos_of_ne_nil (digits_ne_nil (n / 10))
      rw [digits_of_le (Nat.not_lt.1 h), List.length_append, List.length_singleton,
        Nat.add_sub_cancel]
      calc 10 ^ (digits (n / 10)).length = 10 ^ ((digits (n / 10)).length - 1) * 10 := by
            rw [← Nat.pow_succ, Nat.succ_eq_add_one, Nat.sub_add_cancel hlen]
        _ ≤ n / 10 * 10 := Nat.mul_le_mul_right 10 hfront
        _ ≤ n := Nat.div_mul_le_self n 10

theorem length_padded {n w : Nat} (hw : 0 < w) (h : n < 10 ^ w) : (padded w n).length = w := by
  have hlen := length_digits_le hw h
  rw [padded, List.length_append, List.length_replicate]
  omega

theorem isDigit_of_mem_padded (w n : Nat) : ∀ c ∈ padded w n, isDigit c := by
  intro c hc
  rcases List.mem_append.1 hc with hc | hc
  · rw [List.eq_of_mem_replicate hc]
    decide
  · exact isDigit_of_mem_digits n c hc

theorem padded_ne_nil (w n : Nat) : padded w n ≠ [] :=
  List.append_ne_nil_of_right_ne_nil _ (digits_ne_nil n)

/-! ## Reading -/

section Run

variable {p : Char → Bool} {r : List Char} (hr : ∀ c ∈ r.head?, p c = false)
include hr

theorem takeWhile_eq_nil : r.takeWhile p = [] := by
  obtain _ | ⟨c, r⟩ := r
  · rfl
  · exact List.takeWhile_cons_of_neg (by simp [hr c rfl])

theorem dropWhile_eq_self : r.dropWhile p = r := by
  obtain _ | ⟨c, r⟩ := r
  · rfl
  · exact List.dropWhile_cons_of_neg (by simp [hr c rfl])

end Run

/-- A run of digits ends where no digit follows. -/
theorem span_append {ds r : List Char} (hds : ∀ c ∈ ds, isDigit c)
    (hr : ∀ c ∈ r.head?, isDigit c = false) : span (ds ++ r) = (ds, r) := by
  rw [span, List.takeWhile_append_of_pos hds, List.dropWhile_append_of_pos hds,
    takeWhile_eq_nil hr, dropWhile_eq_self hr, List.append_nil]

theorem value_append_singleton (ds : List Char) (c : Char) :
    value (ds ++ [c]) = value ds * 10 + digitValue c := by
  simp [value]

theorem value_digits (n : Nat) : value (digits n) = n := by
  induction n using Nat.strongRecOn with
  | ind n ih =>
    by_cases h : n < 10
    · rw [digits_of_lt h]
      show 0 * 10 + digitValue (digitChar n) = n
      rw [digitValue_digitChar h, Nat.zero_mul, Nat.zero_add]
    · rw [digits_of_le (Nat.not_lt.1 h), value_append_singleton, ih (n / 10) (by omega),
        digitValue_digitChar (by omega)]
      omega

theorem value_replicate_append (k : Nat) (ds : List Char) :
    value (List.replicate k '0' ++ ds) = value ds := by
  induction k with
  | zero => rfl
  | succ k ih =>
    rw [← ih]
    rfl

theorem value_padded (w n : Nat) : value (padded w n) = n := by
  rw [padded, value_replicate_append, value_digits]

/-! ## Order -/

theorem foldl_value (ds : List Char) (n : Nat) :
    ds.foldl (fun n d => n * 10 + digitValue d) n = n * 10 ^ ds.length + value ds := by
  induction ds generalizing n with
  | nil => simp [value]
  | cons d ds ih =>
    rw [value, List.foldl_cons, List.foldl_cons, ih, ih (0 * 10 + digitValue d), List.length_cons,
      Nat.pow_succ, Nat.add_mul, Nat.zero_mul, Nat.zero_add, Nat.mul_assoc, Nat.mul_comm 10,
      Nat.add_assoc]

theorem value_cons (c : Char) (ds : List Char) :
    value (c :: ds) = digitValue c * 10 ^ ds.length + value ds := by
  rw [value, List.foldl_cons, foldl_value, Nat.zero_mul, Nat.zero_add]

theorem value_lt_pow {ds : List Char} (h : ∀ c ∈ ds, isDigit c) : value ds < 10 ^ ds.length := by
  induction ds with
  | nil => decide
  | cons c ds ih =>
    rw [List.forall_mem_cons] at h
    have hc := digitValue_lt h.1
    have hds := ih h.2
    rw [value_cons, List.length_cons, Nat.pow_succ]
    calc digitValue c * 10 ^ ds.length + value ds
        < digitValue c * 10 ^ ds.length + 10 ^ ds.length := Nat.add_lt_add_left hds _
      _ = (digitValue c + 1) * 10 ^ ds.length := (Nat.succ_mul _ _).symm
      _ ≤ 10 ^ ds.length * 10 := by rw [Nat.mul_comm]; exact Nat.mul_le_mul_left _ hc

theorem value_append (ds es : List Char) :
    value (ds ++ es) = value ds * 10 ^ es.length + value es := by
  rw [value, List.foldl_append, foldl_value, ← value]

theorem value_append_replicate (ds : List Char) (k : Nat) :
    value (ds ++ List.replicate k '0') = value ds * 10 ^ k := by
  have hzero : value (List.replicate k '0') = 0 := by
    rw [← List.append_nil (List.replicate k '0'), value_replicate_append]
    rfl
  rw [value_append, List.length_replicate, hzero, Nat.add_zero]

theorem lt_pow_length_digits (n : Nat) : n < 10 ^ (digits n).length := by
  have h := value_lt_pow (isDigit_of_mem_digits n)
  rwa [value_digits] at h

/-- Runs of equally many digits are ordered as their numbers, and what follows them only counts
    if the numbers are equal. -/
theorem append_lt_append_iff {ds es : List Char} (r s : List Char) (hds : ∀ c ∈ ds, isDigit c)
    (hes : ∀ c ∈ es, isDigit c) (hlen : ds.length = es.length) :
    ds ++ r < es ++ s ↔ value ds < value es ∨ value ds = value es ∧ r < s := by
  induction ds generalizing es with
  | nil =>
    obtain rfl := List.length_eq_zero_iff.1 hlen.symm
    simp [value]
  | cons c ds ih =>
    obtain _ | ⟨d, es⟩ := es
    · simp at hlen
    · rw [List.forall_mem_cons] at hds hes
      have hlen' : ds.length = es.length := Nat.succ.inj hlen
      have hds' := value_lt_pow hds.2
      have hes' := value_lt_pow hes.2
      rw [List.cons_append, List.cons_append, List.cons_lt_cons_iff, ih hds.2 hes.2 hlen',
        ← digitValue_lt_iff hds.1 hes.1, ← digitValue_inj hds.1 hes.1, value_cons, value_cons]
      rw [hlen'] at hds' ⊢
      generalize 10 ^ es.length = unit at hds' hes' ⊢
      rcases Nat.lt_trichotomy (digitValue c) (digitValue d) with h | h | h
      · have hstep : (digitValue c + 1) * unit ≤ digitValue d * unit := Nat.mul_le_mul_right _ h
        rw [Nat.succ_mul] at hstep
        have hlt : digitValue c * unit + value ds < digitValue d * unit + value es := by omega
        exact ⟨fun _ => .inl hlt, fun _ => .inl h⟩
      · simp only [h, Nat.lt_irrefl, false_or, true_and, Nat.add_lt_add_iff_left,
          Nat.add_left_cancel_iff]
      · have hstep : (digitValue d + 1) * unit ≤ digitValue c * unit := Nat.mul_le_mul_right _ h
        rw [Nat.succ_mul] at hstep
        constructor
        · rintro (hlt | ⟨heq, -⟩) <;> omega
        · rintro (hlt | ⟨heq, -⟩) <;> omega

theorem padded_append_lt_iff {w m n : Nat} (r s : List Char) (hw : 0 < w) (hm : m < 10 ^ w)
    (hn : n < 10 ^ w) : padded w m ++ r < padded w n ++ s ↔ m < n ∨ m = n ∧ r < s := by
  have hlen : (padded w m).length = (padded w n).length := by
    rw [length_padded hw hm, length_padded hw hn]
  rw [append_lt_append_iff r s (isDigit_of_mem_padded w m) (isDigit_of_mem_padded w n) hlen,
    value_padded, value_padded]

end Numeral

end SpacedReview
