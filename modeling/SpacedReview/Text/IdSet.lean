/-!
# Sets of identifiers

An `IdSet` is a finite set of texts, kept in ascending order without repetition, so that equal sets
are equal values and are listed in one order.
-/

namespace SpacedReview

/-- The list with a text put in its place, unless it is there already. -/
def insertSorted (x : String) : List String → List String
  | [] => [x]
  | y :: ys => if x < y then x :: y :: ys else if x = y then y :: ys else y :: insertSorted x ys

theorem mem_insertSorted {x z : String} {ys : List String} :
    z ∈ insertSorted x ys ↔ z = x ∨ z ∈ ys := by
  induction ys with
  | nil => simp [insertSorted]
  | cons y ys ih =>
    unfold insertSorted
    split
    · simp
    · split
      · simp_all
      · simp only [List.mem_cons, ih, or_left_comm]

theorem pairwise_insertSorted {x : String} {ys : List String} (h : ys.Pairwise (· < ·)) :
    (insertSorted x ys).Pairwise (· < ·) := by
  induction ys with
  | nil => simp [insertSorted]
  | cons y ys ih =>
    obtain ⟨hy, hys⟩ := List.pairwise_cons.1 h
    unfold insertSorted
    split
    · rename_i hxy
      refine List.pairwise_cons.2 ⟨fun z hz => ?_, h⟩
      rcases List.mem_cons.1 hz with rfl | hz
      · exact hxy
      · exact String.lt_trans hxy (hy z hz)
    · split
      · exact h
      · rename_i hxy hne
        refine List.pairwise_cons.2 ⟨fun z hz => ?_, ih hys⟩
        rcases mem_insertSorted.1 hz with rfl | hz
        · exact Decidable.byContradiction fun hyx =>
            hne (String.le_antisymm (String.not_lt.1 hyx) (String.not_lt.1 hxy))
        · exact hy z hz

/-- A finite set of texts. -/
structure IdSet where
  /-- The members in ascending order. -/
  ids : List String
  sorted : ids.Pairwise (· < ·)
deriving DecidableEq

namespace IdSet

instance : Membership String IdSet := ⟨fun s x => x ∈ s.ids⟩

instance (x : String) (s : IdSet) : Decidable (x ∈ s) :=
  inferInstanceAs (Decidable (x ∈ s.ids))

/-- The set without members. -/
def empty : IdSet := ⟨[], .nil⟩

instance : Inhabited IdSet := ⟨empty⟩

instance : EmptyCollection IdSet := ⟨empty⟩

/-- The set with one more member. -/
def insert (s : IdSet) (x : String) : IdSet :=
  ⟨insertSorted x s.ids, pairwise_insertSorted s.sorted⟩

/-- The set without a member. -/
def erase (s : IdSet) (x : String) : IdSet :=
  ⟨s.ids.filter (· ≠ x), s.sorted.filter _⟩

/-- The set of the texts in a list. -/
def ofList (xs : List String) : IdSet :=
  xs.foldl insert empty

theorem not_mem_empty {x : String} : x ∉ empty :=
  List.not_mem_nil

theorem mem_insert {s : IdSet} {x z : String} : z ∈ s.insert x ↔ z = x ∨ z ∈ s :=
  mem_insertSorted

theorem mem_erase {s : IdSet} {x z : String} : z ∈ s.erase x ↔ z ∈ s ∧ z ≠ x := by
  show z ∈ s.ids.filter (· ≠ x) ↔ z ∈ s.ids ∧ z ≠ x
  simp

theorem mem_foldl_insert {xs : List String} {s : IdSet} {z : String} :
    z ∈ xs.foldl insert s ↔ z ∈ s ∨ z ∈ xs := by
  induction xs generalizing s with
  | nil => simp
  | cons x xs ih => simp only [List.foldl_cons, ih, mem_insert, List.mem_cons, or_assoc,
      or_left_comm]

theorem mem_ofList {xs : List String} {z : String} : z ∈ ofList xs ↔ z ∈ xs := by
  simp [ofList, mem_foldl_insert, not_mem_empty]

end IdSet

end SpacedReview
