import SpacedReview.Proofs.Store.Writes

/-!
# Failing writes

A database refuses an answer because the concept or the phrasing is not there, or with an error of
its own.

## Main statements

- `DatabaseStore.record_eq_error` — why an answer is not recorded
-/

namespace SpacedReview

theorem bind_eq_error {ε α β : Type} {x : Except ε α} {f : α → Except ε β} {err : ε}
    (h : x >>= f = .error err) : x = .error err ∨ ∃ a, x = .ok a ∧ f a = .error err := by
  cases x with
  | error _ =>
    obtain rfl := Except.error.inj h
    exact .inl rfl
  | ok a => exact .inr ⟨a, rfl, h⟩

theorem mapM_eq_error {ε α β : Type} {f : α → Except ε β} {xs : List α} {err : ε}
    (h : xs.mapM f = .error err) : ∃ x ∈ xs, f x = .error err := by
  induction xs with
  | nil => simp [pure, Except.pure] at h
  | cons x xs ih =>
    rw [List.mapM_cons] at h
    rcases bind_eq_error h with hx | ⟨y, -, h⟩
    · exact ⟨x, List.mem_cons_self, hx⟩
    · rcases bind_eq_error h with hxs | ⟨ys, -, h⟩
      · obtain ⟨x', hx', herr⟩ := ih hxs
        exact ⟨x', List.mem_cons_of_mem _ hx', herr⟩
      · simp [pure, Except.pure] at h

/-- The error is one of the database itself. -/
def StoreError.IsDatabase (err : StoreError) : Prop :=
  ∃ reason, err = .database reason

namespace Schema

variable {n : Nat} {s : Schema n} {err : StoreError}

theorem isDatabase_of_complete {r : Row n} (h : s.complete r = .error err) : err.IsDatabase := by
  unfold complete at h
  cases hmissing : s.missing? r with
  | none => simp [hmissing] at h
  | some c =>
    rw [hmissing] at h
    exact ⟨_, (Except.error.inj h).symm⟩

theorem isDatabase_of_change {rows : List (Row n)} {id : String} {cells : List (Fin n × Cell)}
    (h : s.change rows id cells = .error err) : err.IsDatabase := by
  obtain ⟨r, -, hr⟩ := mapM_eq_error h
  split at hr
  · exact isDatabase_of_complete hr
  · simp at hr

theorem isDatabase_of_insert {rows : List (Row n)} {r : Row n}
    (h : s.insert rows r = .error err) : err.IsDatabase := by
  rcases bind_eq_error h with hfit | ⟨q, -, h⟩
  · exact isDatabase_of_complete hfit
  · split at h
    · exact ⟨_, (Except.error.inj h).symm⟩
    · simp [pure, Except.pure] at h

end Schema

namespace DatabaseStore

variable {db : DatabaseStore} {err : StoreError}

theorem changeConcept_eq_error {id : String} {cells : List (Fin 13 × Cell)}
    (h : db.changeConcept id cells = .error err) :
    ¬ hasText db.concepts ConceptTable.id id ∨ err.IsDatabase := by
  by_cases hid : hasText db.concepts ConceptTable.id id
  · right
    rw [changeConcept, if_neg (by simp [hid])] at h
    rcases bind_eq_error h with hchange | ⟨rows, -, h⟩
    · exact Schema.isDatabase_of_change hchange
    · simp [pure, Except.pure] at h
  · exact .inl hid

theorem changePhrasing_eq_error {id : String} {cells : List (Fin 11 × Cell)}
    (h : db.changePhrasing id cells = .error err) :
    ¬ hasText db.phrasings PhrasingTable.id id ∨ err.IsDatabase := by
  by_cases hid : hasText db.phrasings PhrasingTable.id id
  · right
    rw [changePhrasing, if_neg (by simp [hid])] at h
    rcases bind_eq_error h with hchange | ⟨rows, -, h⟩
    · exact Schema.isDatabase_of_change hchange
    · simp [pure, Except.pure] at h
  · exact .inl hid

theorem isDatabase_of_insertInteraction {i : Interaction}
    (h : db.insertInteraction i = .error err) : err.IsDatabase := by
  rcases bind_eq_error h with hinsert | ⟨rows, -, h⟩
  · exact Schema.isDatabase_of_insert hinsert
  · split at h
    · exact ⟨_, (Except.error.inj h).symm⟩
    · simp [pure, Except.pure] at h

/-- An answer is not recorded because its concept or its phrasing is not there, or because of an
    error of the database. -/
theorem record_eq_error {p : ReviewPatch} (h : db.record p = .error err) :
    ¬ hasText db.concepts ConceptTable.id p.conceptId ∨
    ¬ hasText db.phrasings PhrasingTable.id p.phrasingId ∨ err.IsDatabase := by
  rcases bind_eq_error h with hconcept | ⟨db₁, hconcept, h⟩
  · rcases changeConcept_eq_error hconcept with hid | herr
    · exact .inl hid
    · exact .inr (.inr herr)
  · obtain ⟨-, rows, -, rfl⟩ := changeConcept_eq_ok.1 hconcept
    rcases bind_eq_error h with hphrasing | ⟨db₂, -, h⟩
    · rcases changePhrasing_eq_error hphrasing with hid | herr
      · exact .inr (.inl hid)
      · exact .inr (.inr herr)
    · exact .inr (.inr (isDatabase_of_insertInteraction h))

end DatabaseStore

end SpacedReview
