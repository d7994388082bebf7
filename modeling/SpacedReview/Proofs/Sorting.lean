import Mathlib.Data.List.Nodup
import Mathlib.Data.String.Basic

/-!
# Sorting by a comparison

A list that is sorted by a comparison has its members in the order of the comparison, and those that
the comparison does not tell apart in the order in which they were given.

## Main statements

- `pairwise_lt_mergeSort` — the order of members that are told apart
- `countP_lt_of_getElem?` — the place of a member in that order
- `mergeSort_eq_of_perm` — it does not depend on the order before sorting
- `mergeSort_take_eq_take_iff` — when sorting some members of a list gives the first of all
- `exists_places_mergeSort` — the order of all members, by their places before sorting
- `mergeSort_by_key` — what has a key goes behind what has none
-/

namespace SpacedReview

section Sorting

variable {α : Type} (cmp : α → α → Ordering) [Std.TransCmp cmp]

theorem ne_gt_total (a b : α) : cmp a b ≠ .gt ∨ cmp b a ≠ .gt := by
  by_cases h : cmp a b = .gt
  · right
    rw [Std.OrientedCmp.gt_iff_lt.1 h]
    decide
  · exact .inl h

theorem pairwise_ne_gt_mergeSort (xs : List α) :
    (xs.mergeSort fun a b => cmp a b ≠ .gt).Pairwise fun a b => cmp a b ≠ .gt := by
  have hsorted : (xs.mergeSort fun a b => cmp a b ≠ .gt).Pairwise
      fun a b => decide (cmp a b ≠ .gt) = true := by
    refine List.pairwise_mergeSort ?_ ?_ xs
    · intro a b c hab hbc
      exact decide_eq_true
        (Std.TransCmp.le_trans (of_decide_eq_true hab) (of_decide_eq_true hbc))
    · intro a b
      simpa using ne_gt_total cmp a b
  exact hsorted.imp of_decide_eq_true

/-- If no two members of a list are equal to each other, each comes before the next. -/
theorem pairwise_lt_mergeSort {xs : List α} (h : xs.Pairwise fun a b => cmp a b ≠ .eq) :
    (xs.mergeSort fun a b => cmp a b ≠ .gt).Pairwise fun a b => cmp a b = .lt := by
  have hne : (xs.mergeSort fun a b => cmp a b ≠ .gt).Pairwise fun a b => cmp a b ≠ .eq := by
    refine ((List.mergeSort_perm xs _).pairwise_iff fun {a b} hab hba => ?_).2 h
    exact hab (Std.OrientedCmp.eq_comm.1 hba)
  refine (hne.and (pairwise_ne_gt_mergeSort cmp xs)).imp fun {a b} hab => ?_
  cases hcmp : cmp a b with
  | lt => rfl
  | eq => exact absurd hcmp hab.1
  | gt => exact absurd hcmp hab.2

/-- Before a member of a sorted list there are those that come before it in the order. -/
theorem countP_lt_of_getElem? {xs : List α} (h : xs.Pairwise fun a b => cmp a b = .lt) {i : Nat}
    {a : α} (ha : xs[i]? = some a) : xs.countP (fun b => cmp b a = .lt) = i := by
  induction xs generalizing i with
  | nil => cases ha
  | cons b xs ih =>
    obtain ⟨hb, hxs⟩ := List.pairwise_cons.1 h
    cases i with
    | zero =>
      obtain rfl := Option.some.inj ha
      have hself : cmp b b = .eq := Std.ReflCmp.compare_self
      refine List.countP_eq_zero.2 (List.forall_mem_cons.2 ⟨by simp [hself], fun x hx hlt => ?_⟩)
      exact Std.OrientedCmp.not_lt_of_lt (hb x hx) (of_decide_eq_true hlt)
    | succ i =>
      rw [List.getElem?_cons_succ] at ha
      rw [List.countP_cons, ih hxs ha, if_pos (decide_eq_true (hb a (List.mem_of_getElem? ha)))]

/-- A list and its permutations are sorted into the same list if no two members are equal to each
    other. -/
theorem mergeSort_eq_of_perm {xs ys : List α} (hperm : xs.Perm ys)
    (h : xs.Pairwise fun a b => cmp a b ≠ .eq) :
    (xs.mergeSort fun a b => cmp a b ≠ .gt) = ys.mergeSort fun a b => cmp a b ≠ .gt := by
  have hys : ys.Pairwise fun a b => cmp a b ≠ .eq := by
    refine (hperm.pairwise_iff ?_).1 h
    intro a b hab hba
    exact hab (Std.OrientedCmp.eq_comm.1 hba)
  have hsorts := (List.mergeSort_perm xs fun a b => cmp a b ≠ .gt).trans
    (hperm.trans (List.mergeSort_perm ys fun a b => cmp a b ≠ .gt).symm)
  refine hsorts.eq_of_pairwise ?_ (pairwise_lt_mergeSort cmp h) (pairwise_lt_mergeSort cmp hys)
  intro a b _ _ hab hba
  rw [Std.OrientedCmp.gt_iff_lt.2 hab] at hba
  cases hba

/-- One more member at the head of a list is sorted in front of the first member that does not come
    before it. -/
theorem exists_mergeSort_cons (x : α) (xs : List α) :
    ∃ front back, (xs.mergeSort fun a b => cmp a b ≠ .gt) = front ++ back ∧
      ((x :: xs).mergeSort fun a b => cmp a b ≠ .gt) = front ++ x :: back ∧
      ∀ y ∈ front, cmp y x = .lt := by
  let le (a b : α) : Bool := cmp a b ≠ .gt
  have htrans (a b c : α) (hab : le a b) (hbc : le b c) : le a c :=
    decide_eq_true (Std.TransCmp.le_trans (of_decide_eq_true hab) (of_decide_eq_true hbc))
  have htotal (a b : α) : le a b || le b a := by simpa [le] using ne_gt_total cmp a b
  obtain ⟨front, back, hcons, hsorted, hfront⟩ := List.mergeSort_cons htrans htotal x xs
  refine ⟨front, back, hsorted, hcons, fun y hy => Std.OrientedCmp.gt_iff_lt.1 ?_⟩
  simpa [le] using hfront y hy

/-- One more member at the head of a list is sorted between what comes before it and all else. -/
theorem mergeSort_cons_eq (x : α) (xs : List α) :
    ((x :: xs).mergeSort fun a b => cmp a b ≠ .gt) =
      (xs.mergeSort fun a b => cmp a b ≠ .gt).filter (fun y => cmp y x = .lt) ++
        x :: (xs.mergeSort fun a b => cmp a b ≠ .gt).filter fun y => cmp y x ≠ .lt := by
  obtain ⟨front, back, hsorted, hcons, hfront⟩ := exists_mergeSort_cons cmp x xs
  have hback : ∀ y ∈ back, cmp y x ≠ .lt := by
    have hpairwise := pairwise_ne_gt_mergeSort cmp (x :: xs)
    rw [hcons] at hpairwise
    have hbehind := (List.pairwise_cons.1 (List.pairwise_append.1 hpairwise).2.1).1
    intro y hy hlt
    exact hbehind y hy (Std.OrientedCmp.gt_iff_lt.2 hlt)
  have hbefore : front.filter (fun y => cmp y x = .lt) = front :=
    List.filter_eq_self.2 fun y hy => decide_eq_true (hfront y hy)
  have hnone : back.filter (fun y => cmp y x = .lt) = [] :=
    List.filter_eq_nil_iff.2 fun y hy => by simpa using hback y hy
  have hbehind : back.filter (fun y => cmp y x ≠ .lt) = back :=
    List.filter_eq_self.2 fun y hy => decide_eq_true (hback y hy)
  have hrest : front.filter (fun y => cmp y x ≠ .lt) = [] :=
    List.filter_eq_nil_iff.2 fun y hy => by simpa using hfront y hy
  rw [hcons, hsorted, List.filter_append, List.filter_append, hbefore, hnone, hrest, hbehind,
    List.append_nil, List.nil_append]

/-- If nothing in the second of two lists comes before a member of the first, they are sorted one
    after the other. -/
theorem mergeSort_append {xs ys : List α} (h : ∀ a ∈ xs, ∀ b ∈ ys, cmp a b ≠ .gt) :
    ((xs ++ ys).mergeSort fun a b => cmp a b ≠ .gt) =
      (xs.mergeSort fun a b => cmp a b ≠ .gt) ++ ys.mergeSort fun a b => cmp a b ≠ .gt := by
  induction xs with
  | nil => rw [List.mergeSort_nil, List.nil_append, List.nil_append]
  | cons x xs ih =>
    obtain ⟨hx, hxs⟩ := List.forall_mem_cons.1 h
    have hlast : ∀ y ∈ ys.mergeSort fun a b => cmp a b ≠ .gt, cmp y x ≠ .lt := by
      intro y hy hlt
      exact hx y (List.mem_mergeSort.1 hy) (Std.OrientedCmp.gt_iff_lt.2 hlt)
    have hnone : (ys.mergeSort fun a b => cmp a b ≠ .gt).filter (fun y => cmp y x = .lt) = [] :=
      List.filter_eq_nil_iff.2 fun y hy => by simpa using hlast y hy
    have hall : (ys.mergeSort fun a b => cmp a b ≠ .gt).filter (fun y => cmp y x ≠ .lt) =
        ys.mergeSort fun a b => cmp a b ≠ .gt :=
      List.filter_eq_self.2 fun y hy => decide_eq_true (hlast y hy)
    rw [List.cons_append, mergeSort_cons_eq, ih hxs, mergeSort_cons_eq, List.filter_append,
      List.filter_append, hnone, hall, List.append_nil, List.append_assoc, List.cons_append]

/-- The first members of a list are the first ones of the sorted list, in its order, exactly if no
    other member comes before one of them. -/
theorem mergeSort_take_eq_take_iff (xs : List α) (n : Nat) :
    ((xs.take n).mergeSort fun a b => cmp a b ≠ .gt) =
        (xs.mergeSort fun a b => cmp a b ≠ .gt).take n ↔
      ∀ a ∈ xs.take n, ∀ b ∈ xs.drop n, cmp a b ≠ .gt := by
  constructor
  · intro h a ha b hb
    -- What is behind the first members of the sorted list are the other members.
    have hperm : (xs.mergeSort fun a b => cmp a b ≠ .gt).Perm xs := List.mergeSort_perm _ _
    rw [← List.take_append_drop n (xs.mergeSort fun a b => cmp a b ≠ .gt), ← h] at hperm
    have hfirst : ((xs.take n).mergeSort fun a b => cmp a b ≠ .gt).Perm (xs.take n) :=
      List.mergeSort_perm _ _
    have hothers : ((xs.mergeSort fun a b => cmp a b ≠ .gt).drop n).Perm (xs.drop n) := by
      refine (List.perm_append_left_iff (xs.take n)).1 ?_
      rw [List.take_append_drop]
      exact (hfirst.symm.append_right _).trans hperm
    have hsorted := pairwise_ne_gt_mergeSort cmp xs
    rw [← List.take_append_drop n (xs.mergeSort fun a b => cmp a b ≠ .gt), ← h] at hsorted
    exact (List.pairwise_append.1 hsorted).2.2 a (hfirst.mem_iff.2 ha) b (hothers.mem_iff.2 hb)
  · intro h
    have happend := mergeSort_append cmp h
    rw [List.take_append_drop] at happend
    rw [happend]
    rcases Nat.le_total n xs.length with hle | hle
    · rw [List.take_left' (by rw [List.length_mergeSort, List.length_take_of_le hle])]
    · rw [List.drop_of_length_le hle, List.mergeSort_nil, List.append_nil,
        List.take_of_length_le hle, List.take_of_length_le]
      rwa [List.length_mergeSort]

/-- Sorting keeps the members that are equal to each other in their places. -/
theorem exists_places_mergeSort (xs : List α) :
    ∃ places : List (α × Nat), places.Perm xs.zipIdx ∧
      places.Pairwise (fun a b => cmp a.1 b.1 = .lt ∨ cmp a.1 b.1 = .eq ∧ a.2 < b.2) ∧
      places.map (·.1) = xs.mergeSort fun a b => cmp a b ≠ .gt := by
  -- Sorting is stable: it is sorting the pairs with the places, which tell all members apart.
  let le (a b : α) : Bool := cmp a b ≠ .gt
  refine ⟨xs.zipIdx.mergeSort (List.zipIdxLE le), List.mergeSort_perm _ _, ?_,
    List.mergeSort_zipIdx⟩
  have hsorted : (xs.zipIdx.mergeSort (List.zipIdxLE le)).Pairwise
      fun a b => List.zipIdxLE le a b = true := by
    refine List.pairwise_mergeSort (List.zipIdxLE_trans ?_) (List.zipIdxLE_total ?_) _
    · intro a b c hab hbc
      exact decide_eq_true
        (Std.TransCmp.le_trans (of_decide_eq_true hab) (of_decide_eq_true hbc))
    · intro a b
      simpa [le] using ne_gt_total cmp a b
  have hplaces : (xs.zipIdx.mergeSort (List.zipIdxLE le)).Pairwise fun a b => a.2 ≠ b.2 := by
    refine ((List.mergeSort_perm _ _).pairwise_iff fun hab => Ne.symm hab).2 ?_
    have hnodup : (xs.zipIdx.map (·.2)).Nodup := by
      rw [List.zipIdx_map_snd]
      exact List.nodup_range' 1
    exact List.pairwise_map.1 hnodup
  refine (hplaces.and hsorted).imp fun {a b} hab => ?_
  obtain ⟨hne, hle⟩ := hab
  simp only [List.zipIdxLE, le, decide_eq_true_eq] at hle
  split at hle
  · rename_i hcmp
    split at hle
    · rename_i hcmp'
      have heq : cmp a.1 b.1 = .eq := by
        cases h : cmp a.1 b.1 with
        | lt => exact absurd (Std.OrientedCmp.gt_iff_lt.2 h) hcmp'
        | eq => rfl
        | gt => exact absurd h hcmp
      have hplace : a.2 ≤ b.2 := of_decide_eq_true hle
      exact .inr ⟨heq, by omega⟩
    · rename_i hcmp'
      exact .inl (Std.OrientedCmp.gt_iff_lt.1 (not_not.1 hcmp'))
  · simp at hle

end Sorting

/-! ## Sorting by a truth value -/

/-- A list in which nothing that has a key comes before something that has none. -/
theorem eq_append_of_pairwise_key {α : Type} {key : α → Bool} {xs : List α}
    (h : xs.Pairwise fun a b => key a ≤ key b) : xs = xs.filter (!key ·) ++ xs.filter key := by
  induction xs with
  | nil => rfl
  | cons x xs ih =>
    obtain ⟨hx, hxs⟩ := List.pairwise_cons.1 h
    by_cases hkey : key x
    · have hall : ∀ y ∈ x :: xs, key y := by
        intro y hy
        rcases List.mem_cons.1 hy with rfl | hy
        · exact hkey
        · exact hx y hy hkey
      have hnone : (x :: xs).filter (!key ·) = [] := by
        apply List.filter_eq_nil_iff.2
        intro y hy
        simp [hall y hy]
      rw [hnone, List.filter_eq_self.2 hall, List.nil_append]
    · rw [List.filter_cons_of_pos (by simp [hkey]), List.filter_cons_of_neg (by simp [hkey]),
        List.cons_append, ← ih hxs]

/-- Sorting by a truth value moves what has it behind all else and keeps the order on both sides. -/
theorem mergeSort_by_key {α : Type} (key : α → Bool) (xs : List α) :
    (xs.mergeSort fun a b => key a ≤ key b) = xs.filter (!key ·) ++ xs.filter key := by
  let le (a b : α) : Bool := key a ≤ key b
  have htrans (a b c : α) (hab : le a b) (hbc : le b c) : le a c := by
    simp only [le, decide_eq_true_eq] at *
    exact Bool.le_trans hab hbc
  have htotal (a b : α) : le a b || le b a := by
    simp only [le]
    cases key a <;> cases key b <;> decide
  have hperm : (xs.mergeSort le).Perm xs := List.mergeSort_perm xs le
  -- Sorting is stable: what agrees in the key stays in its order.
  have hside (side : Bool) :
      xs.filter (key · == side) = (xs.mergeSort le).filter (key · == side) := by
    have hpairwise : (xs.filter (key · == side)).Pairwise fun a b => le a b := by
      apply List.pairwise_of_forall_mem_list
      intro a ha b hb
      have ha : key a = side := by simpa using (List.mem_filter.1 ha).2
      have hb : key b = side := by simpa using (List.mem_filter.1 hb).2
      simp [le, ha, hb]
    have hsub : (xs.filter (key · == side)).Sublist (xs.mergeSort le) :=
      List.sublist_mergeSort htrans htotal hpairwise List.filter_sublist
    have hsub : (xs.filter (key · == side)).Sublist ((xs.mergeSort le).filter (key · == side)) := by
      simpa using hsub.filter (key · == side)
    exact hsub.eq_of_length (hperm.filter _).length_eq.symm
  have hsorted : (xs.mergeSort le).Pairwise fun a b => key a ≤ key b :=
    (List.pairwise_mergeSort htrans htotal xs).imp of_decide_eq_true
  have htrue := hside true
  have hfalse := hside false
  simp only [beq_true, beq_false] at htrue hfalse
  rw [htrue, hfalse]
  exact eq_append_of_pairwise_key hsorted

end SpacedReview
