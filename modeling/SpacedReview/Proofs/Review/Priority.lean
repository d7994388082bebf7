import SpacedReview.Proofs.Sorting
import SpacedReview.Proofs.Time.Instants
import SpacedReview.Review.Candidate

/-!
# The order in which concepts are asked

Concepts are asked by urgency, next review and identifier, and those that are put off after all
others. Both orders are total, and no two concepts with different identifiers are equal in them.

## Main definitions

- `Engine.urgency` — what urgency depends on
- `Engine.AsksBefore` — one concept is asked before another

## Main statements

- `Engine.pairwise_sortByPriority` — due concepts by priority
- `pairwise_askingOrder` — due concepts in the order in which they are asked
-/

namespace SpacedReview

namespace Engine

variable {e : Engine} {now : Instant} {a b : Concept}

/-- The urgency of a concept: below everything else if it was never reviewed, and by the estimated
    recall otherwise. -/
def urgency (e : Engine) (now : Instant) (c : Concept) : Option Int :=
  if c.isNew then none else some (Binary64.order (e.recallOf c now))

theorem compareUrgency_eq (a b : Concept) :
    e.compareUrgency now a b = compare (e.urgency now a) (e.urgency now b) := by
  unfold compareUrgency urgency
  cases a.isNew <;> cases b.isNew <;> rfl

instance : Std.TransCmp (e.comparePriority now) := by
  have hkeys : e.comparePriority now = compareLex (compareLex (compareOn (e.urgency now))
      (compareOn fun c => c.memory.nextReview)) (compareOn Concept.id) := by
    funext a b
    rw [comparePriority, compareUrgency_eq]
    rfl
  rw [hkeys]
  infer_instance

theorem id_eq_of_comparePriority (h : e.comparePriority now a b = .eq) : a.id = b.id := by
  rw [comparePriority, Ordering.then_eq_eq] at h
  exact Std.LawfulEqOrd.eq_of_compare h.2

theorem pairwise_sortByPriority (e : Engine) (now : Instant) {cs : List Concept}
    (h : (cs.map Concept.id).Nodup) :
    (e.sortByPriority now cs).Pairwise fun a b => e.comparePriority now a b = .lt :=
  pairwise_lt_mergeSort _
    ((List.pairwise_map.1 h).imp fun hne heq => hne (id_eq_of_comparePriority heq))

/-- Sorting tells concepts apart by their identifiers at the latest. -/
theorem pairwise_sortByPriority_of_ne (e : Engine) (now : Instant) (cs : List Concept) :
    (e.sortByPriority now cs).Pairwise fun a b =>
      a.id ≠ b.id → e.comparePriority now a b = .lt := by
  refine (pairwise_ne_gt_mergeSort (e.comparePriority now) cs).imp fun {a b} hle hne => ?_
  cases hcmp : e.comparePriority now a b with
  | lt => rfl
  | eq => exact absurd (id_eq_of_comparePriority hcmp) hne
  | gt => exact absurd hcmp hle

theorem sortByPriority_perm (e : Engine) (now : Instant) (cs : List Concept) :
    (e.sortByPriority now cs).Perm cs :=
  List.mergeSort_perm _ _

/-- One concept is asked before another: it is not put off and the other one is, or both or none of
    them are and it has priority. -/
def AsksBefore (e : Engine) (now : Instant) (putOff : List String) (a b : Concept) : Prop :=
  a.id ∉ putOff ∧ b.id ∈ putOff ∨
    (a.id ∈ putOff ↔ b.id ∈ putOff) ∧ e.comparePriority now a b = .lt

end Engine

variable {e : Engine} {now : Instant} {putOff : List String}

theorem askingOrder_perm (cs : List Concept) : (askingOrder e now putOff cs).Perm cs := by
  refine List.Perm.trans ?_ (e.sortByPriority_perm now cs)
  rw [askingOrder]
  refine List.Perm.trans List.perm_append_comm ?_
  simpa using List.filter_append_perm (fun c : Concept => decide (c.id ∈ putOff))
    (e.sortByPriority now cs)

/-- Of two concepts with different identifiers, the one that is asked first comes first. -/
theorem pairwise_askingOrder_of_ne (cs : List Concept) :
    (askingOrder e now putOff cs).Pairwise fun a b =>
      a.id ≠ b.id → e.AsksBefore now putOff a b := by
  have hsorted := e.pairwise_sortByPriority_of_ne now cs
  rw [askingOrder, List.pairwise_append]
  refine ⟨?_, ?_, ?_⟩
  · refine List.Pairwise.imp_of_mem ?_ (hsorted.filter fun c => c.id ∉ putOff)
    intro a b ha hb hlt hne
    have ha : a.id ∉ putOff := of_decide_eq_true (List.mem_filter.1 ha).2
    have hb : b.id ∉ putOff := of_decide_eq_true (List.mem_filter.1 hb).2
    exact .inr ⟨iff_of_false ha hb, hlt hne⟩
  · refine List.Pairwise.imp_of_mem ?_ (hsorted.filter fun c => c.id ∈ putOff)
    intro a b ha hb hlt hne
    have ha : a.id ∈ putOff := of_decide_eq_true (List.mem_filter.1 ha).2
    have hb : b.id ∈ putOff := of_decide_eq_true (List.mem_filter.1 hb).2
    exact .inr ⟨iff_of_true ha hb, hlt hne⟩
  · intro a ha b hb _
    have ha : a.id ∉ putOff := of_decide_eq_true (List.mem_filter.1 ha).2
    have hb : b.id ∈ putOff := of_decide_eq_true (List.mem_filter.1 hb).2
    exact .inl ⟨ha, hb⟩

theorem pairwise_askingOrder {cs : List Concept} (h : (cs.map Concept.id).Nodup) :
    (askingOrder e now putOff cs).Pairwise (e.AsksBefore now putOff) := by
  have hids : ((askingOrder e now putOff cs).map Concept.id).Nodup :=
    ((askingOrder_perm cs).map Concept.id).nodup_iff.2 h
  exact ((List.pairwise_map.1 hids).and (pairwise_askingOrder_of_ne cs)).imp fun h => h.2 h.1

end SpacedReview
