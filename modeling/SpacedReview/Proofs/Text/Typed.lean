import Mathlib.Data.List.TakeWhile
import SpacedReview.Proofs.Text.Numerals
import SpacedReview.Text.Blank

/-!
# Typed texts

A text that a person types counts without the blanks around it. A number in it is a run of digits,
perhaps with a plus sign in front and with as many leading zeros as the person likes.

## Main definitions

- `Text.Encloses` — a text is another one with blanks around it
- `Numeral.IsUnsigned` — a text stands for a number

## Main statements

- `Text.trim_of_encloses`, `Text.encloses_trim` — what trimming leaves
- `Numeral.readUnsigned?_eq_some` — reading a number
-/

namespace SpacedReview

namespace Text

/-! ## Blanks around a text -/

/-- The characters are some others with blanks in front of them and behind them. -/
def Encloses (cs core : List Char) : Prop :=
  ∃ front back, cs = front ++ (core ++ back) ∧ (∀ c ∈ front, isBlank c) ∧ ∀ c ∈ back, isBlank c

/-- The characters neither begin nor end with a blank. -/
def IsTight (cs : List Char) : Prop :=
  (∀ c ∈ cs.head?, isBlank c = false) ∧ ∀ c ∈ cs.getLast?, isBlank c = false

theorem dropWhile_append_blank {front cs : List Char} (hfront : ∀ c ∈ front, isBlank c)
    (h : ∀ c ∈ cs.head?, isBlank c = false) : (front ++ cs).dropWhile isBlank = cs := by
  rw [List.dropWhile_append_of_pos hfront, Numeral.dropWhile_eq_self h]

theorem head?_dropWhile_blank (cs : List Char) :
    ∀ c ∈ (cs.dropWhile isBlank).head?, isBlank c = false := by
  intro c hc
  have hnot := List.head?_dropWhile_not isBlank cs
  rwa [hc] at hnot

/-- Trimming leaves what has the blanks around it. -/
theorem trim_of_encloses {s : String} {core : List Char} (h : Encloses s.toList core)
    (hcore : IsTight core) : trim s = String.ofList core := by
  obtain ⟨front, back, hs, hfront, hback⟩ := h
  by_cases hempty : core = []
  · subst hempty
    have hall : ∀ c ∈ s.toList, isBlank c := by
      rw [hs, List.nil_append]
      exact List.forall_mem_append.2 ⟨hfront, hback⟩
    have hnil : s.toList.dropWhile isBlank = [] := List.dropWhile_eq_nil_iff.2 hall
    rw [trim, trimStart, hnil]
    rfl
  · have hstart : s.toList.dropWhile isBlank = core ++ back := by
      rw [hs]
      refine dropWhile_append_blank hfront ?_
      rw [List.head?_append_of_ne_nil _ hempty]
      exact hcore.1
    have hend : (core ++ back).reverse.dropWhile isBlank = core.reverse := by
      rw [List.reverse_append]
      refine dropWhile_append_blank (fun c hc => hback c (List.mem_reverse.1 hc)) ?_
      rw [List.head?_reverse]
      exact hcore.2
    rw [trim, trimStart, hstart, trimEnd, hend, List.reverse_reverse]

/-- A text has blanks around what trimming leaves of it. -/
theorem encloses_trim (s : String) :
    Encloses s.toList (trim s).toList ∧ IsTight (trim s).toList := by
  let inner := s.toList.dropWhile isBlank
  let outer := inner.reverse.dropWhile isBlank
  have htrim : (trim s).toList = outer.reverse := String.toList_ofList
  have hback : inner = outer.reverse ++ (inner.reverse.takeWhile isBlank).reverse := by
    rw [← List.reverse_append, List.takeWhile_append_dropWhile, List.reverse_reverse]
  have hfront : s.toList = s.toList.takeWhile isBlank ++ inner :=
    List.takeWhile_append_dropWhile.symm
  refine ⟨⟨s.toList.takeWhile isBlank, (inner.reverse.takeWhile isBlank).reverse, ?_, ?_, ?_⟩, ?_⟩
  · rw [htrim, ← hback]
    exact hfront
  · exact fun c hc => List.mem_takeWhile_imp hc
  · exact fun c hc => List.mem_takeWhile_imp (List.mem_reverse.1 hc)
  · rw [htrim]
    refine ⟨fun c hc => ?_, fun c hc => ?_⟩
    · -- What is left begins as the text does behind its blanks.
      refine head?_dropWhile_blank s.toList c ?_
      have hne : outer.reverse ≠ [] := by
        rintro hnil
        rw [hnil] at hc
        cases hc
      show c ∈ inner.head?
      rw [hback, List.head?_append_of_ne_nil _ hne]
      exact hc
    · rw [List.getLast?_reverse] at hc
      exact head?_dropWhile_blank inner.reverse c hc

theorem trim_trim (s : String) : trim (trim s) = trim s := by
  have htight := (encloses_trim s).2
  have henclosed : Encloses (trim s).toList (trim s).toList :=
    ⟨[], [], by simp, by simp, by simp⟩
  rw [trim_of_encloses henclosed htight, String.ofList_toList]

end Text

/-! ## Unsigned numbers -/

namespace Numeral

/-- The characters stand for a number: digits, at least one, and perhaps a plus sign in front. -/
def IsUnsigned (cs : List Char) (n : Nat) : Prop :=
  ∃ ds, (cs = ds ∨ cs = '+' :: ds) ∧ ds ≠ [] ∧ (∀ c ∈ ds, isDigit c) ∧ value ds = n

theorem isUnsigned_digits (n : Nat) : IsUnsigned (digits n) n :=
  ⟨digits n, .inl rfl, digits_ne_nil n, isDigit_of_mem_digits n, value_digits n⟩

/-- Exactly the numbers up to the limit are read. -/
theorem readUnsigned?_eq_some {limit n : Nat} {s : String} :
    readUnsigned? limit s = some n ↔ IsUnsigned s.toList n ∧ n ≤ limit := by
  -- The digits begin behind a plus sign if there is one.
  have hread (ds : List Char) : (if ds ≠ [] ∧ ds.all isDigit ∧ value ds ≤ limit then
      some (value ds) else none) = some n ↔
        (ds ≠ [] ∧ (∀ c ∈ ds, isDigit c) ∧ value ds = n) ∧ n ≤ limit := by
    rw [Option.ite_none_right_eq_some, Option.some.injEq, List.all_eq_true]
    constructor
    · rintro ⟨⟨hne, hds, hle⟩, rfl⟩
      exact ⟨⟨hne, hds, rfl⟩, hle⟩
    · rintro ⟨⟨hne, hds, rfl⟩, hle⟩
      exact ⟨⟨hne, hds, hle⟩, rfl⟩
  have hplus : isDigit '+' = false := by decide
  by_cases hs : ∃ ds, s.toList = '+' :: ds
  · obtain ⟨ds, hs⟩ := hs
    rw [readUnsigned?, hs]
    refine (hread ds).trans (and_congr_left fun _ => ⟨fun hds => ⟨ds, .inr rfl, hds⟩, ?_⟩)
    rintro ⟨es, rfl | hes, hne, hdigits, hvalue⟩
    · have := hdigits '+' List.mem_cons_self
      rw [hplus] at this
      cases this
    · obtain ⟨-, rfl⟩ := List.cons.inj hes
      exact ⟨hne, hdigits, hvalue⟩
  · have hbare : readUnsigned? limit s = if s.toList ≠ [] ∧ s.toList.all isDigit ∧
        value s.toList ≤ limit then some (value s.toList) else none := by
      cases hcs : s.toList with
      | nil => rw [readUnsigned?, hcs]
      | cons c cs =>
        simp only [readUnsigned?, hcs]
        split
        · rename_i ds heq
          exact absurd ⟨ds, hcs.trans heq⟩ hs
        · rfl
    refine (iff_of_eq (congrArg (· = some n) hbare)).trans <| (hread s.toList).trans
      (and_congr_left fun _ => ⟨fun hds => ⟨_, .inl rfl, hds⟩, ?_⟩)
    rintro ⟨es, rfl | hes, hds⟩
    · exact hds
    · exact absurd ⟨es, hes⟩ hs

/-- A number begins with a plus sign or a digit and ends with a digit. -/
theorem IsUnsigned.isTight {cs : List Char} {n : Nat} (h : IsUnsigned cs n) : Text.IsTight cs := by
  have hplus : Text.isBlank '+' = false := by decide
  have hdigit {c : Char} (hc : isDigit c) : Text.isBlank c = false := by
    have hrange := isDigit_iff.1 hc
    simp only [Text.isBlank, Bool.or_eq_false_iff, Bool.and_eq_false_imp, decide_eq_true_eq,
      decide_eq_false_iff_not, beq_eq_false_iff_ne]
    omega
  obtain ⟨ds, hcs, hne, hds, -⟩ := h
  have hlast (c : Char) (hc : c ∈ ds.getLast?) : Text.isBlank c = false :=
    hdigit (hds c (List.mem_of_getLast? hc))
  rcases hcs with rfl | rfl
  · exact ⟨fun c hc => hdigit (hds c (List.mem_of_head? hc)), hlast⟩
  · refine ⟨?_, ?_⟩
    · rintro c ⟨⟩
      exact hplus
    · rw [List.getLast?_cons_of_ne_nil hne]
      exact hlast

end Numeral

end SpacedReview
