/-!
# Lists with a key

A list of records that are told apart by a text, their key. `put` replaces the record with the
same key or appends the new one, and `change` changes the record with a key; neither moves any
other record. `find?_put` and `find?_change` say what is found afterwards.
-/

namespace SpacedReview

namespace Keyed

variable {α : Type} (key : α → String)

/-- The record with a key. -/
def find? (xs : List α) (id : String) : Option α :=
  xs.find? fun x => key x = id

/-- Some record has the key. -/
def has (xs : List α) (id : String) : Bool :=
  xs.any fun x => key x = id

/-- The records with one more, which takes the place of the one with its key. -/
def put (xs : List α) (x : α) : List α :=
  if has key xs (key x) then xs.map fun y => if key y = key x then x else y else xs ++ [x]

/-- The records with the one that has a key changed. -/
def change (xs : List α) (id : String) (f : α → α) : List α :=
  xs.map fun x => if key x = id then f x else x

theorem key_of_find? {xs : List α} {id : String} {x : α} (h : find? key xs id = some x) :
    key x = id :=
  of_decide_eq_true (List.find?_some (p := fun x => decide (key x = id)) h)

theorem mem_of_find? {xs : List α} {id : String} {x : α} (h : find? key xs id = some x) :
    x ∈ xs :=
  List.mem_of_find?_eq_some h

theorem has_iff {xs : List α} {id : String} : has key xs id ↔ ∃ x ∈ xs, key x = id := by
  simp [has]

theorem has_eq_isSome_find? (xs : List α) (id : String) :
    has key xs id = (find? key xs id).isSome := by
  rw [Bool.eq_iff_iff]
  simp [has, find?]

theorem exists_find? {xs : List α} {id : String} (h : has key xs id) :
    ∃ x, find? key xs id = some x := by
  rw [has_eq_isSome_find?] at h
  exact Option.isSome_iff_exists.1 h

theorem find?_change {xs : List α} {id : String} {f : α → α}
    (hf : ∀ x, key x = id → key (f x) = id) (other : String) :
    find? key (change key xs id f) other =
      if other = id then (find? key xs id).map f else find? key xs other := by
  induction xs with
  | nil => simp [find?, change]
  | cons x xs ih =>
    simp only [find?, change, List.map_cons, List.find?_cons] at ih ⊢
    by_cases hx : key x = id <;> by_cases ho : other = id
    · simp [hx, ho, hf x hx]
    · simp [hx, ho, hf x hx, ih, Ne.symm ho]
    · simpa [hx, ho, -List.find?_map] using ih
    · simp [hx, ho, ih]

theorem map_key_change {xs : List α} {id : String} {f : α → α}
    (hf : ∀ x, key x = id → key (f x) = id) : (change key xs id f).map key = xs.map key := by
  rw [change, List.map_map]
  refine List.map_congr_left fun x _ => ?_
  show key (if key x = id then f x else x) = key x
  split
  · rename_i h
    rw [hf x h, h]
  · rfl

theorem has_change {xs : List α} {id : String} {f : α → α}
    (hf : ∀ x, key x = id → key (f x) = id) (other : String) :
    has key (change key xs id f) other = has key xs other := by
  have hmap (ys : List α) : has key ys other = (ys.map key).any fun k => k = other := by
    rw [has, List.any_map]
    rfl
  rw [hmap, map_key_change key hf, hmap]

theorem forall_mem_change {xs : List α} {id : String} {f : α → α} {p : α → Prop}
    (hxs : ∀ x ∈ xs, p x) (hf : ∀ x, p x → p (f x)) : ∀ y ∈ change key xs id f, p y := by
  intro y hy
  obtain ⟨x, hx, rfl⟩ := List.mem_map.1 hy
  split
  · exact hf x (hxs x hx)
  · exact hxs x hx

theorem put_of_has {xs : List α} {x : α} (h : has key xs (key x)) :
    put key xs x = change key xs (key x) fun _ => x := by
  simp [put, change, h]

theorem put_of_not_has {xs : List α} {x : α} (h : ¬ has key xs (key x)) :
    put key xs x = xs ++ [x] := by
  simp [put, h]

theorem forall_mem_put {xs : List α} {x : α} {p : α → Prop} (hxs : ∀ x ∈ xs, p x) (hx : p x) :
    ∀ y ∈ put key xs x, p y := by
  by_cases h : has key xs (key x)
  · rw [put_of_has key h]
    exact forall_mem_change key hxs fun _ _ => hx
  · rw [put_of_not_has key h]
    intro y hy
    rcases List.mem_append.1 hy with hy | hy
    · exact hxs y hy
    · rw [List.mem_singleton.1 hy]
      exact hx

/-- No two records have one key if this is so without the new one. -/
theorem nodup_put {xs : List α} {x : α} (h : (xs.map key).Nodup) :
    ((put key xs x).map key).Nodup := by
  by_cases hx : has key xs (key x)
  · rw [put_of_has key hx, map_key_change key fun _ _ => rfl]
    exact h
  · rw [put_of_not_has key hx, List.map_append, List.nodup_append]
    refine ⟨h, List.pairwise_singleton _ _, ?_⟩
    intro k hk l hl heq
    obtain ⟨y, hy, rfl⟩ := List.mem_map.1 hk
    rw [List.map_singleton, List.mem_singleton] at hl
    exact hx ((has_iff key).2 ⟨y, hy, heq.trans hl⟩)

theorem find?_put (xs : List α) (x : α) (id : String) :
    find? key (put key xs x) id = if id = key x then some x else find? key xs id := by
  by_cases h : has key xs (key x)
  · rw [put_of_has key h, find?_change key fun _ _ => rfl]
    rw [has_eq_isSome_find?] at h
    obtain ⟨y, hy⟩ := Option.isSome_iff_exists.1 h
    simp [hy]
  · rw [put_of_not_has key h]
    rw [has_eq_isSome_find?, Option.not_isSome_iff_eq_none] at h
    simp only [find?, List.find?_append, List.find?_singleton] at h ⊢
    by_cases hid : id = key x
    · simp [hid, h]
    · simp [hid, Ne.symm hid]

theorem mem_put (xs : List α) (x : α) : x ∈ put key xs x := by
  have hfind : find? key (put key xs x) (key x) = some x := by rw [find?_put, if_pos rfl]
  exact mem_of_find? key hfind

theorem eq_or_mem_of_mem_put {xs : List α} {x y : α} (h : y ∈ put key xs x) :
    y = x ∨ y ∈ xs ∧ key y ≠ key x := by
  by_cases hx : has key xs (key x)
  · rw [put_of_has key hx] at h
    obtain ⟨z, hz, rfl⟩ := List.mem_map.1 h
    by_cases hkey : key z = key x
    · exact .inl (if_pos hkey)
    · rw [if_neg hkey]
      exact .inr ⟨hz, hkey⟩
  · rw [put_of_not_has key hx] at h
    rcases List.mem_append.1 h with hy | hy
    · exact .inr ⟨hy, fun hkey => hx ((has_iff key).2 ⟨y, hy, hkey⟩)⟩
    · exact .inl (List.mem_singleton.1 hy)

theorem mem_put_of_ne {xs : List α} {x y : α} (hy : y ∈ xs) (hne : key y ≠ key x) :
    y ∈ put key xs x := by
  by_cases hx : has key xs (key x)
  · rw [put_of_has key hx]
    exact List.mem_map.2 ⟨y, hy, if_neg hne⟩
  · rw [put_of_not_has key hx]
    exact List.mem_append_left _ hy

theorem mem_change {xs : List α} {x : α} {id : String}
    (hx : x ∈ xs) (hid : key x = id) (f : α → α) : f x ∈ change key xs id f :=
  List.mem_map.2 ⟨x, hx, if_pos hid⟩

end Keyed

end SpacedReview
