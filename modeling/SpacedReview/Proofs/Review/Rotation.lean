import SpacedReview.Proofs.Review.Draining
import SpacedReview.Proofs.Review.PutOff

/-!
# Putting off the front of the queue

A learner who puts off the first concepts of the queue is asked about the next one, and about the
first one when all are put off: the question goes round the queue. This only depends on what the
store reports.

## Main definitions

- `AskableQueue` — all concepts that could be asked, as a store reports them, in order

## Main statements

- `AskableQueue.getElem?_of_found` — the question when the front of the queue is put off
-/

namespace SpacedReview

theorem Engine.AsksBefore.asymm {e : Engine} {now : Instant} {putOff : List String}
    {a b : Concept} (h : e.AsksBefore now putOff a b) : ¬ e.AsksBefore now putOff b a := by
  rintro (⟨hb, ha⟩ | ⟨hiff, hba⟩)
  · rcases h with ⟨ha', -⟩ | ⟨hiff, -⟩
    · exact ha' ha
    · exact hb (hiff.1 ha)
  · rcases h with ⟨ha, hb⟩ | ⟨-, hab⟩
    · exact ha (hiff.1 hb)
    · rw [Std.OrientedCmp.gt_iff_lt.2 hab] at hba
      cases hba

section Queue

variable {σ : Type} [ReviewStore σ] {store : σ} {e : Engine} {now : Instant} {cs : List Concept}
  {putOff : List String} {f : FoundCandidate}

/-- All concepts that could be asked, as the store reports them, in the order of priority. No two of
    them have one identifier. -/
structure AskableQueue (store : σ) (e : Engine) (now : Instant) (cs : List Concept) : Prop where
  mem_iff : ∀ c, c ∈ cs ↔ Askable store now c
  sorted : cs.Pairwise fun c d => e.comparePriority now c d = .lt
  nodup_ids : (cs.map Concept.id).Nodup

/-- The queue of the records that a store holds is the queue that it reports. -/
theorem VolatileStore.IsQueue.askableQueue (r : Representation σ) {s : VolatileStore}
    (hs : r.Holds store s) (hnow : r.Legible now) (h : s.IsQueue e now cs) :
    AskableQueue store e now cs where
  mem_iff c := (h.mem_iff c).trans (r.askable_iff hs hnow).symm
  sorted := h.sorted
  nodup_ids := by
    refine h.nodup.map_on fun c hc d hd hid => ?_
    exact List.inj_on_of_nodup_map (r.distinct hs).concepts ((h.mem_iff c).1 hc).1
      ((h.mem_iff d).1 hd).1 hid

namespace AskableQueue

/-- What comes before every other concept of the queue is asked. -/
theorem concept_eq_of_first (h : AskableQueue store e now cs)
    (hf : nextCandidate e store now putOff = .ok (.found f)) {c : Concept} (hc : c ∈ cs)
    (hfirst : ∀ d ∈ cs, d ≠ c → e.AsksBefore now putOff c d) : f.concept = c := by
  obtain ⟨haskable, hbefore⟩ := askable_of_found hf
  have hmem := (h.mem_iff f.concept).2 haskable
  by_contra hne
  have hids : f.concept.id ≠ c.id := fun hid =>
    hne (List.inj_on_of_nodup_map h.nodup_ids hmem hc hid)
  exact (hfirst f.concept hmem hne).asymm (hbefore c ((h.mem_iff c).1 hc) hids)

/-- If the first concepts of the queue are put off and the others are not, then the next concept is
    asked, and the first one if all of them are put off. -/
theorem getElem?_of_found (h : AskableQueue store e now cs) {front back : List Concept}
    (hcs : cs = front ++ back) (hne : cs ≠ [])
    (hputOff : ∀ c ∈ cs, c.id ∈ putOff ↔ c.id ∈ front.map Concept.id)
    (hf : nextCandidate e store now putOff = .ok (.found f)) :
    cs[front.length % cs.length]? = some f.concept ∧ (f.concept.id ∈ putOff ↔ back = []) := by
  have hnodup := h.nodup_ids
  have hsorted := h.sorted
  rw [hcs, List.map_append, List.nodup_append] at hnodup
  have hfront : ∀ c ∈ front, c.id ∈ putOff := fun c hc =>
    (hputOff c (hcs ▸ List.mem_append_left _ hc)).2 (List.mem_map_of_mem hc)
  have hback : ∀ c ∈ back, c.id ∉ putOff := by
    intro c hc hput
    have hmem := (hputOff c (hcs ▸ List.mem_append_right _ hc)).1 hput
    exact hnodup.2.2 _ hmem _ (List.mem_map_of_mem hc) rfl
  cases back with
  | nil =>
    rw [List.append_nil] at hcs
    cases cs with
    | nil => exact absurd rfl hne
    | cons c rest =>
      -- All are put off, so that the order is the one of the queue.
      have heq : f.concept = c := by
        refine h.concept_eq_of_first hf List.mem_cons_self fun d hd hdc => ?_
        have hd' : d ∈ rest := by simpa [hdc] using hd
        exact .inr ⟨iff_of_true (hfront c (hcs ▸ List.mem_cons_self)) (hfront d (hcs ▸ hd)),
          (List.pairwise_cons.1 hsorted).1 d hd'⟩
      rw [heq, ← hcs, Nat.mod_self]
      exact ⟨rfl, iff_of_true (hfront c (hcs ▸ List.mem_cons_self)) rfl⟩
  | cons c rest =>
    have hc := hback c List.mem_cons_self
    have heq : f.concept = c := by
      refine h.concept_eq_of_first hf (hcs ▸ by simp) fun d hd hdc => ?_
      rw [hcs] at hd hsorted
      rcases List.mem_append.1 hd with hd | hd
      · exact .inl ⟨hc, hfront d hd⟩
      · have hd' : d ∈ rest := by simpa [hdc] using hd
        have hlt := (List.pairwise_cons.1 (List.pairwise_append.1 hsorted).2.1).1 d hd'
        exact .inr ⟨iff_of_false hc (hback d hd), hlt⟩
    have hlt : front.length < cs.length := by simp [hcs]
    rw [heq, Nat.mod_eq_of_lt hlt, hcs]
    exact ⟨by simp, iff_of_false hc (by simp)⟩

end AskableQueue

end Queue

end SpacedReview
