import Mathlib.Data.List.Forall2
import SpacedReview.Store.Database

/-!
# Changing rows

What a table holds after cells of a row are overwritten: the cells that are named hold the new
values as their columns keep them, all other cells and all other rows are what they were.

## Main statements

- `Schema.get_overwrite_of_mem`, `Schema.get_overwrite_of_not_mem` — the cells of a changed row
- `Schema.find?_change_self`, `Schema.find?_change_other` — the rows of a changed table
-/

namespace SpacedReview

/-! ## Results that are no error -/

theorem bind_eq_ok {ε α β : Type} {x : Except ε α} {f : α → Except ε β} {b : β} :
    x >>= f = .ok b ↔ ∃ a, x = .ok a ∧ f a = .ok b := by
  cases x <;> simp [bind, Except.bind]

theorem map_eq_ok {ε α β : Type} {x : Except ε α} {f : α → β} {b : β} :
    x.map f = .ok b ↔ ∃ a, x = .ok a ∧ f a = b := by
  cases x <;> simp [Except.map]

theorem mapError_eq_ok {ε ε' α : Type} {x : Except ε α} {f : ε → ε'} {a : α} :
    x.mapError f = .ok a ↔ x = .ok a := by
  cases x <;> simp [Except.mapError]

theorem mapM_eq_ok {ε α β : Type} {f : α → Except ε β} {xs : List α} {ys : List β} :
    xs.mapM f = .ok ys ↔ List.Forall₂ (fun x y => f x = .ok y) xs ys := by
  induction xs generalizing ys with
  | nil => cases ys <;> simp [pure, Except.pure]
  | cons x xs ih =>
    simp only [List.mapM_cons, bind_eq_ok, ih, List.forall₂_cons_left_iff, pure, Except.pure,
      Except.ok.injEq]
    constructor
    · rintro ⟨y, hy, ys', hys, rfl⟩
      exact ⟨y, ys', hy, hys, rfl⟩
    · rintro ⟨y, ys', hy, hys, rfl⟩
      exact ⟨y, hy, ys', hys, rfl⟩

theorem exists_of_mem_mapM {ε α β : Type} {f : α → Except ε β} {xs : List α} {ys : List β}
    (h : xs.mapM f = .ok ys) {y : β} (hy : y ∈ ys) : ∃ x ∈ xs, f x = .ok y := by
  rw [mapM_eq_ok] at h
  induction h with
  | nil => cases hy
  | @cons x z xs zs hxz _ ih =>
    rcases List.mem_cons.1 hy with rfl | hy
    · exact ⟨x, List.mem_cons_self, hxz⟩
    · obtain ⟨x', hx', hxy⟩ := ih hy
      exact ⟨x', List.mem_cons_of_mem _ hx', hxy⟩

theorem exists_mem_mapM {ε α β : Type} {f : α → Except ε β} {xs : List α} {ys : List β}
    (h : xs.mapM f = .ok ys) {x : α} (hx : x ∈ xs) : ∃ y ∈ ys, f x = .ok y := by
  rw [mapM_eq_ok] at h
  induction h with
  | nil => cases hx
  | @cons z y zs ys hzy _ ih =>
    rcases List.mem_cons.1 hx with rfl | hx
    · exact ⟨y, List.mem_cons_self, hzy⟩
    · obtain ⟨y', hy', hxy⟩ := ih hx
      exact ⟨y', List.mem_cons_of_mem _ hy', hxy⟩

theorem exists_mapM_eq_ok {ε α β : Type} {f : α → Except ε β} {xs : List α} :
    (∃ ys, xs.mapM f = .ok ys) ↔ ∀ x ∈ xs, ∃ y, f x = .ok y := by
  induction xs with
  | nil => simp [pure, Except.pure]
  | cons x xs ih =>
    rw [List.forall_mem_cons, ← ih]
    simp only [List.mapM_cons, bind_eq_ok, pure, Except.pure, Except.ok.injEq]
    constructor
    · rintro ⟨_, y, hy, ys, hys, -⟩
      exact ⟨⟨y, hy⟩, ys, hys⟩
    · rintro ⟨⟨y, hy⟩, ys, hys⟩
      exact ⟨y :: ys, y, hy, ys, hys, rfl⟩

namespace Schema

variable {n : Nat} {s : Schema n}

/-! ## Required columns -/

theorem complete_eq_ok {r q : Row n} : s.complete r = .ok q ↔ s.missing? r = none ∧ r = q := by
  unfold complete
  cases s.missing? r <;> simp

theorem missing?_eq_none {r : Row n} :
    s.missing? r = none ↔ ∀ c, (s.columns.get c).required → r.get c ≠ .null := by
  simp [missing?, List.find?_eq_none]

/-! ## One row -/

theorem get_set (r : Row n) (c d : Fin n) (v : Cell) :
    (r.set c v).get d = if d = c then v else r.get d := by
  show (r.set c v)[d.val] = if d = c then v else r[d.val]
  simp only [Vector.getElem_set, Fin.ext_iff, eq_comm]

section Foldl

variable {f : Row n → Fin n × Cell → Row n} {g : Fin n × Cell → Cell} {c : Fin n}
  {cells : List (Fin n × Cell)}

theorem get_foldl_of_not_mem (hf : ∀ r p d, (f r p).get d = if d = p.1 then g p else r.get d)
    (r : Row n) (h : c ∉ cells.map Prod.fst) : (cells.foldl f r).get c = r.get c := by
  induction cells generalizing r with
  | nil => rfl
  | cons p cells ih =>
    rw [List.map_cons, List.mem_cons, not_or] at h
    rw [List.foldl_cons, ih _ h.2, hf, if_neg h.1]

theorem get_foldl_of_mem (hf : ∀ r p d, (f r p).get d = if d = p.1 then g p else r.get d)
    {p : Fin n × Cell} (r : Row n) (hp : p ∈ cells) (hnodup : (cells.map Prod.fst).Nodup) :
    (cells.foldl f r).get p.1 = g p := by
  induction cells generalizing r with
  | nil => simp at hp
  | cons q cells ih =>
    rw [List.map_cons, List.nodup_cons] at hnodup
    rw [List.foldl_cons]
    rcases List.mem_cons.1 hp with rfl | hp
    · rw [get_foldl_of_not_mem hf _ hnodup.1, hf, if_pos rfl]
    · exact ih _ hp hnodup.2

end Foldl

theorem get_overwrite_of_not_mem {r q : Row n} {cells : List (Fin n × Cell)} {c : Fin n}
    (h : s.overwrite r cells = .ok q) (hc : c ∉ cells.map Prod.fst) : q.get c = r.get c := by
  obtain ⟨-, rfl⟩ := complete_eq_ok.1 h
  exact get_foldl_of_not_mem (g := fun p => s.keep p.1 p.2) (fun r p d => get_set r p.1 d _) r hc

theorem get_overwrite_of_mem {r q : Row n} {cells : List (Fin n × Cell)} {p : Fin n × Cell}
    (h : s.overwrite r cells = .ok q) (hp : p ∈ cells) (hnodup : (cells.map Prod.fst).Nodup) :
    q.get p.1 = s.keep p.1 p.2 := by
  obtain ⟨-, rfl⟩ := complete_eq_ok.1 h
  exact get_foldl_of_mem (g := fun p => s.keep p.1 p.2) (fun r p d => get_set r p.1 d _) r hp hnodup

/-- A required cell of an overwritten row holds something. -/
theorem get_ne_null_of_overwrite {r q : Row n} {cells : List (Fin n × Cell)} {c : Fin n}
    (h : s.overwrite r cells = .ok q) (hc : (s.columns.get c).required) : q.get c ≠ .null := by
  obtain ⟨hmissing, rfl⟩ := complete_eq_ok.1 h
  exact missing?_eq_none.1 hmissing c hc

/-! ## The rows of a table -/

variable {rows rows' : List (Row n)} {id other : String} {cells : List (Fin n × Cell)}

theorem hasId_of_find? {r : Row n} (h : DatabaseStore.find? s rows id = some r) :
    r.get s.key = .text id := by
  simpa [hasId] using List.find?_some h

/-- The row with an identifier is the one that was overwritten. -/
theorem find?_change_self (h : s.change rows id cells = .ok rows')
    (hkey : s.key ∉ cells.map Prod.fst) {r : Row n}
    (hr : DatabaseStore.find? s rows id = some r) :
    ∃ q, s.overwrite r cells = .ok q ∧ DatabaseStore.find? s rows' id = some q := by
  rw [change, mapM_eq_ok] at h
  induction h with
  | nil => simp [DatabaseStore.find?] at hr
  | @cons x y xs ys hxy _ ih =>
    by_cases hx : s.hasId x id
    · rw [if_pos hx] at hxy
      have hy : s.hasId y id := by
        rw [hasId, get_overwrite_of_not_mem hxy hkey]
        exact hx
      have hrx : x = r := by simpa [DatabaseStore.find?, hx] using hr
      exact ⟨y, hrx ▸ hxy, by simp [DatabaseStore.find?, hy]⟩
    · rw [if_neg hx, Except.ok.injEq] at hxy
      subst hxy
      obtain ⟨q, hq, hfind⟩ := ih (by simpa [DatabaseStore.find?, hx] using hr)
      exact ⟨q, hq, by simpa [DatabaseStore.find?, hx] using hfind⟩

/-- A row with the identifier can be overwritten if the table can be changed. -/
theorem exists_overwrite_of_change (h : s.change rows id cells = .ok rows') {r : Row n}
    (hr : r ∈ rows) (hid : r.get s.key = .text id) : ∃ q, s.overwrite r cells = .ok q := by
  rw [change, mapM_eq_ok] at h
  induction h with
  | nil => simp at hr
  | @cons x y xs ys hxy _ ih =>
    rcases List.mem_cons.1 hr with rfl | hr
    · have hx : s.hasId r id := decide_eq_true hid
      rw [if_pos hx] at hxy
      exact ⟨y, hxy⟩
    · exact ih hr

/-- The row with another identifier is what it was. -/
theorem find?_change_other (h : s.change rows id cells = .ok rows')
    (hkey : s.key ∉ cells.map Prod.fst) (hother : other ≠ id) :
    DatabaseStore.find? s rows' other = DatabaseStore.find? s rows other := by
  rw [change, mapM_eq_ok] at h
  induction h with
  | nil => rfl
  | @cons x y xs ys hxy _ ih =>
    unfold DatabaseStore.find? at ih ⊢
    rw [List.find?_cons, List.find?_cons, ih]
    by_cases hx : s.hasId x id
    · rw [if_pos hx] at hxy
      have hxid : x.get s.key = .text id := of_decide_eq_true hx
      have hyid : y.get s.key = .text id := by rw [get_overwrite_of_not_mem hxy hkey, hxid]
      simp [hasId, hxid, hyid, Ne.symm hother]
    · rw [if_neg hx, Except.ok.injEq] at hxy
      rw [hxy]

/-- A row of a changed table is one that was there, or the one that was overwritten. -/
theorem exists_of_mem_change (h : s.change rows id cells = .ok rows') {q : Row n}
    (hq : q ∈ rows') :
    ∃ r ∈ rows, q = r ∨ r.get s.key = .text id ∧ s.overwrite r cells = .ok q := by
  obtain ⟨r, hr, hrq⟩ := exists_of_mem_mapM h hq
  refine ⟨r, hr, ?_⟩
  by_cases hid : s.hasId r id
  · rw [if_pos hid] at hrq
    exact .inr ⟨of_decide_eq_true hid, hrq⟩
  · rw [if_neg hid] at hrq
    exact .inl (Except.ok.inj hrq).symm

theorem exists_mem_change (h : s.change rows id cells = .ok rows') {r : Row n} (hr : r ∈ rows) :
    ∃ q ∈ rows', q = r ∨ r.get s.key = .text id ∧ s.overwrite r cells = .ok q := by
  obtain ⟨q, hq, hrq⟩ := exists_mem_mapM h hr
  refine ⟨q, hq, ?_⟩
  by_cases hid : s.hasId r id
  · rw [if_pos hid] at hrq
    exact .inr ⟨of_decide_eq_true hid, hrq⟩
  · rw [if_neg hid] at hrq
    exact .inl (Except.ok.inj hrq).symm

theorem map_key_change (h : s.change rows id cells = .ok rows')
    (hkey : s.key ∉ cells.map Prod.fst) :
    rows'.map (fun r => r.get s.key) = rows.map fun r => r.get s.key := by
  rw [change, mapM_eq_ok] at h
  induction h with
  | nil => rfl
  | @cons x y xs ys hxy _ ih =>
    rw [List.map_cons, List.map_cons, ih]
    by_cases hx : s.hasId x id
    · rw [if_pos hx] at hxy
      rw [get_overwrite_of_not_mem hxy hkey]
    · rw [if_neg hx, Except.ok.injEq] at hxy
      rw [hxy]

end Schema

end SpacedReview
