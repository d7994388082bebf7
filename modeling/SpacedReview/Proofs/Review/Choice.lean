import Mathlib.Data.Prod.Lex
import SpacedReview.Selection

/-!
# The chosen phrasing

Of the phrasings that can be shown the preferred one is chosen, and without it the first of those
that are seen least.

## Main definitions

- `Phrasing.seenKey` — how much a phrasing was seen
- `Chosen` — what can be chosen, and why

## Main statements

- `chosen_selectPreferred` — the choice without a random source
-/

namespace SpacedReview

namespace Phrasing

variable {p q : Phrasing}

/-- How much a phrasing was seen, as a key in lexicographic order: the number of attempts, the
    millisecond of the last one, or zero if there was none, and the millisecond of the creation. -/
def seenKey (p : Phrasing) : ℕ ×ₗ ℤ ×ₗ ℤ :=
  toLex (p.attemptCount.toNat,
    toLex (p.lastAttemptedAt.elim 0 Instant.millis, p.createdAt.millis))

theorem seenLess_iff : p.SeenLess q ↔ p.seenKey < q.seenKey := by
  have hlast (r : Phrasing) : (r.lastAttemptedAt.map Instant.millis).getD 0 =
      r.lastAttemptedAt.elim 0 Instant.millis := by
    cases r.lastAttemptedAt <;> rfl
  simp only [SeenLess, exposure, seenKey, Prod.Lex.toLex_lt_toLex, hlast]

theorem attemptCount_le_of_seenKey_le (h : p.seenKey ≤ q.seenKey) :
    p.attemptCount.toNat ≤ q.attemptCount.toNat :=
  Prod.Lex.monotone_fst _ _ h

theorem mem_showable {ps : List Phrasing} :
    p ∈ showable none ps ↔ p ∈ ps ∧ p.archivedAt = none ∧ p.deletedAt = none := by
  rw [← isRetired_eq_false]
  simp [showable, isShowable]

end Phrasing

/-- What is chosen from the phrasings that can be shown: none if there is none, the preferred one if
    it is among them, and otherwise the first of those that are seen least. -/
inductive Chosen (preferred : Option String) (able : List Phrasing) :
    Option Phrasing → SelectionReason → Prop
  | nothing : able = [] → Chosen preferred able none .none
  | canonical {p : Phrasing} : p ∈ able → preferred = some p.id →
      Chosen preferred able (some p) .canonical
  | leastSeen {p : Phrasing} {before after : List Phrasing} : able = before ++ p :: after →
      (∀ q ∈ able, preferred ≠ some q.id) → (∀ q ∈ before, p.seenKey < q.seenKey) →
      (∀ q ∈ after, p.seenKey ≤ q.seenKey) → Chosen preferred able (some p) .leastSeen

theorem Chosen.mem {preferred : Option String} {able : List Phrasing} {p : Phrasing}
    {reason : SelectionReason} (h : Chosen preferred able (some p) reason) : p ∈ able := by
  cases h with
  | canonical hp => exact hp
  | leastSeen heq =>
    rw [heq]
    exact List.mem_append_right _ List.mem_cons_self

/-- Without a preferred phrasing none counts fewer attempts than the chosen one. -/
theorem Chosen.attemptCount_le {preferred : Option String} {able : List Phrasing} {p : Phrasing}
    {reason : SelectionReason} (h : Chosen preferred able (some p) reason)
    (hother : ∀ q ∈ able, preferred ≠ some q.id) :
    ∀ q ∈ able, p.attemptCount.toNat ≤ q.attemptCount.toNat := by
  intro q hq
  cases h with
  | canonical hp hpreferred => exact absurd hpreferred (hother p hp)
  | leastSeen heq _ hbefore hafter =>
    rw [heq] at hq
    rcases List.mem_append.1 hq with hq | hq
    · exact Phrasing.attemptCount_le_of_seenKey_le (hbefore q hq).le
    · rcases List.mem_cons.1 hq with rfl | hq
      · exact Nat.le_refl _
      · exact Phrasing.attemptCount_le_of_seenKey_le (hafter q hq)

theorem Chosen.eq_nil {preferred : Option String} {able : List Phrasing}
    {reason : SelectionReason} (h : Chosen preferred able none reason) : able = [] := by
  cases h with
  | nothing hnil => exact hnil

theorem foldl_seenLess (ps : List (Phrasing × Nat)) (p : Phrasing × Nat) :
    ∃ before best after, ps.foldl (fun best q => if q.1.SeenLess best.1 then q else best) p = best ∧
      p :: ps = before ++ best :: after ∧ (∀ q ∈ before, best.1.seenKey < q.1.seenKey) ∧
      ∀ q ∈ after, best.1.seenKey ≤ q.1.seenKey := by
  induction ps generalizing p with
  | nil => exact ⟨[], p, [], rfl, rfl, by simp, by simp⟩
  | cons q ps ih =>
    rw [List.foldl_cons]
    by_cases hqp : q.1.SeenLess p.1
    · -- The best of the rest is seen less than `p` too, whether it is `q` or comes later.
      rw [if_pos hqp]
      obtain ⟨before, best, after, hbest, heq, hbefore, hafter⟩ := ih q
      have hqp := Phrasing.seenLess_iff.1 hqp
      have hp : best.1.seenKey < p.1.seenKey := by
        cases before with
        | nil =>
          obtain ⟨rfl, -⟩ := List.cons.inj heq
          exact hqp
        | cons q' before =>
          obtain ⟨rfl, -⟩ := List.cons.inj heq
          exact (hbefore q List.mem_cons_self).trans hqp
      exact ⟨p :: before, best, after, hbest, by rw [heq, List.cons_append],
        List.forall_mem_cons.2 ⟨hp, hbefore⟩, hafter⟩
    · -- `q` has its place before the best of the rest, unless that is `p` itself.
      rw [if_neg hqp]
      obtain ⟨before, best, after, hbest, heq, hbefore, hafter⟩ := ih p
      have hpq : p.1.seenKey ≤ q.1.seenKey := not_lt.1 (Phrasing.seenLess_iff.not.1 hqp)
      cases before with
      | nil =>
        obtain ⟨rfl, rfl⟩ := List.cons.inj heq
        exact ⟨[], p, q :: ps, hbest, rfl, hbefore, List.forall_mem_cons.2 ⟨hpq, hafter⟩⟩
      | cons p' before =>
        obtain ⟨rfl, rfl⟩ := List.cons.inj heq
        obtain ⟨hp, hbefore⟩ := List.forall_mem_cons.1 hbefore
        exact ⟨p :: q :: before, best, after, hbest, rfl, List.forall_mem_cons.2
          ⟨hp, List.forall_mem_cons.2 ⟨hp.trans_le hpq, hbefore⟩⟩, hafter⟩

/-- Without a random source, the choice is the preferred phrasing or the first of the least seen
    ones. -/
theorem chosen_selectPreferred (preferred : Option String) (ps : List Phrasing) :
    Chosen preferred (showable none ps) (selectPreferred preferred ps).phrasing?
      (selectPreferred preferred ps).reason := by
  have hable : (ps.zipIdx.filter fun p => p.1.isShowable none).map (·.1) = showable none ps := by
    rw [showable, ← List.zipIdx_map_fst 0 ps, List.filter_map, List.zipIdx_map_fst]
    rfl
  rw [← hable]
  simp only [selectPreferred, select, SelectionOptions.standard]
  cases ps.zipIdx.filter fun p => p.1.isShowable none with
  | nil => exact .nothing rfl
  | cons p able =>
    cases hfind : (p :: able).find? fun q => some q.1.id = preferred with
    | some q =>
      have hq := List.find?_some hfind
      exact .canonical (List.mem_map_of_mem (List.mem_of_find?_eq_some hfind))
        (of_decide_eq_true hq).symm
    | none =>
      obtain ⟨before, best, after, hbest, heq, hbefore, hafter⟩ := foldl_seenLess able p
      have hother : ∀ q ∈ p :: able, preferred ≠ some q.1.id := by
        intro q hq hpreferred
        exact List.find?_eq_none.1 hfind q hq (decide_eq_true hpreferred.symm)
      have hmap : (p :: able).map (·.1) = before.map (·.1) ++ best.1 :: after.map (·.1) := by
        rw [heq, List.map_append, List.map_cons]
      have hchoice : (leastSeen? (p :: able)).map (·.1) = some best.1 := by
        rw [leastSeen?, hbest]
        rfl
      show Chosen preferred _ ((leastSeen? (p :: able)).map (·.1)) .leastSeen
      rw [hchoice]
      exact .leastSeen hmap (List.forall_mem_map.2 hother) (List.forall_mem_map.2 hbefore)
        (List.forall_mem_map.2 hafter)

end SpacedReview
