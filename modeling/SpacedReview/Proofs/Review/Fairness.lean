import SpacedReview.Proofs.Review.Draining
import SpacedReview.Proofs.Review.Outcome
import SpacedReview.Proofs.Review.PutOff
import SpacedReview.Proofs.Review.Rota

/-!
# Fair rotation

A concept that prefers none of its phrasings shows the one seen least, and every answer counts. So
over any rounds, while phrasings are only taken away from the concept, no two phrasings that it can
show drift apart by more than they were apart in the beginning, or by one. Phrasings that start
level take turns: each has its turn once before any has its next one, as long as the counters can
count on.

## Main definitions

- `ReviewRound`, `ReviewMove`, `playAll` — rounds of a learner between changes of a store
- `Spread` — how far the counters of a concept's phrasings are apart
- `TakesTurns` — which phrasings have had their turn
- `RotatesFairly` — what the moves of a learner do to a concept

## Main statements

- `rotatesFairly_of_unpointed` — the rotation in both stores
-/

namespace SpacedReview

/-! ## Rounds -/

/-- A learner is asked, and replies later. The store may be changed in between. -/
structure ReviewRound where
  engine : Engine
  asked : Instant
  putOff : List String
  meanwhile : List StoreChange
  reply : Reply
  answered : Instant

/-- A round of a learner, or a change between two rounds. -/
inductive ReviewMove where
  | change (ch : StoreChange)
  | round (r : ReviewRound)

/-- The changes of the store that the move makes beside the answer. -/
def ReviewMove.changes : ReviewMove → List StoreChange
  | change ch => [ch]
  | round r => r.meanwhile

section Rounds

variable {σ : Type} [ReviewStore σ] [Catalogued σ]

/-- The store after the round, and the concept and the phrasing of the answer if it was taken. -/
def ReviewRound.play (r : ReviewRound) (store : σ) : σ × Option (String × String) :=
  let mid := StoreChange.run store r.meanwhile
  match nextCandidate r.engine store r.asked r.putOff with
  | .ok (.found f) =>
    match submit r.engine mid (r.reply.request f) r.answered r.reply.interactionId with
    | (next, .ok _) => (next, some (f.concept.id, f.phrasing.id))
    | (next, .error _) => (next, none)
  | _ => (mid, none)

theorem ReviewRound.play_of_taken {r : ReviewRound} {store next : σ} {f : FoundCandidate}
    {outcome : SubmitOutcome}
    (hf : nextCandidate r.engine store r.asked r.putOff = .ok (.found f))
    (h : submit r.engine (StoreChange.run store r.meanwhile) (r.reply.request f) r.answered
      r.reply.interactionId = (next, .ok outcome)) :
    r.play store = (next, some (f.concept.id, f.phrasing.id)) := by
  simp [play, hf, h]

/-- The store after the move, and what was reviewed. A change that fails leaves the store. -/
def ReviewMove.play (store : σ) : ReviewMove → σ × Option (String × String)
  | change ch => (StoreChange.run store [ch], none)
  | round r => r.play store

/-- The store after some moves, and what was reviewed by them, in order. -/
def playAll (store : σ) : List ReviewMove → σ × List (String × String)
  | [] => (store, [])
  | m :: ms =>
    let (next, review) := m.play store
    let (final, reviews) := playAll next ms
    (final, review.toList ++ reviews)

/-- The phrasings of a concept that were reviewed, in order. -/
def shownOf (conceptId : String) (reviews : List (String × String)) : List String :=
  (reviews.filter fun review => review.1 = conceptId).map (·.2)

end Rounds

section Rotation

variable {σ : Type} [ReviewStore σ] [Catalogued σ] [Tally σ] [Rota σ] {store mid next : σ}
  {conceptId id : String}

/-! ## What is asked -/

/-- The concept can show the phrasing, and none that it can show counts fewer attempts. -/
structure LeastSeen (store : σ) (conceptId id : String) : Prop where
  lists : Rota.Lists store conceptId id
  attempts_le : ∀ other m n, Rota.Lists store conceptId other → Tally.attempts? store id = some m →
    Tally.attempts? store other = some n → m.toNat ≤ n.toNat

/-- Without a preferred phrasing the question is the one seen least. -/
theorem leastSeen_of_found (hd : Rota.Distinct store) {e : Engine} {now : Instant}
    {putOff : List String} {f : FoundCandidate}
    (h : nextCandidate e store now putOff = .ok (.found f))
    (hunpointed : Unpointed store f.concept.id) :
    LeastSeen store f.concept.id f.phrasing.id := by
  obtain ⟨due, hdue, hfirst⟩ := exists_due_of_nextCandidate h
  obtain ⟨before, after, heq, hcandidate, -⟩ := exists_of_firstCandidate hfirst
  obtain ⟨-, ps, hps, hchosen, -⟩ := chosen_of_candidateFor? hcandidate
  have hconcept : f.concept ∈ due := by
    rw [← (askingOrder_perm due).mem_iff, heq]
    exact List.mem_append_right _ List.mem_cons_self
  -- A phrasing that is preferred and can be shown would be one that the concept points at.
  have hother : ∀ q ∈ showable none ps, f.concept.canonicalPhrasing ≠ some q.id := by
    intro q hq hpreferred
    exact hunpointed q.id (Rota.points_of_due hdue hconcept hpreferred)
      ((Rota.lists_iff hps).2 ⟨q, hq, rfl⟩)
  refine ⟨(Rota.lists_iff hps).2 ⟨_, hchosen.mem, rfl⟩, ?_⟩
  intro other m n hlists hm hn
  obtain ⟨q, hq, rfl⟩ := (Rota.lists_iff hps).1 hlists
  have hmem (p : Phrasing) (hp : p ∈ showable none ps) : p ∈ ps :=
    (Phrasing.mem_showable.1 hp).1
  rw [Rota.attempts?_of_mem hd hps (hmem _ hchosen.mem), Option.some.injEq] at hm
  rw [Rota.attempts?_of_mem hd hps (hmem q hq), Option.some.injEq] at hn
  rw [← hm, ← hn]
  exact hchosen.attemptCount_le hother q hq

/-! ## What an answer counts -/

/-- One more attempt is counted at the phrasing, and otherwise the concepts can show what they could
    before. -/
structure CountsAttempt (id : String) (store next : σ) : Prop where
  counted : ∃ n, Tally.attempts? store id = some n ∧ Tally.attempts? next id = some (countUp n)
  others : ∀ other, other ≠ id → Tally.attempts? next other = Tally.attempts? store other
  lists : ∀ conceptId other, Rota.Lists next conceptId other ↔ Rota.Lists store conceptId other
  points : ∀ conceptId other, Rota.Points next conceptId other → Rota.Points store conceptId other

theorem countsAttempt_of_submit (hd : Rota.Distinct store) {e : Engine} {r : SubmitRequest}
    {now : Instant} {interactionId : String} {outcome : SubmitOutcome}
    (h : submit e store r now interactionId = (next, .ok outcome)) :
    Rota.Distinct next ∧ CountsAttempt r.phrasingId store next ∧
      ∀ conceptId, Rota.Lists store conceptId r.phrasingId → conceptId = r.conceptId := by
  obtain ⟨c, p, result, hgradable, hrecord, -⟩ := submit_eq_ok_iff_gradable.1 h
  have happly : (StoreChange.record (r.patch now interactionId p result)).apply store =
      .ok next := hrecord
  have hattempts (other : String) := Tally.attempts?_record other hrecord
  refine ⟨Rota.distinct_apply hd happly, ⟨?_, ?_, ?_, ?_⟩, ?_⟩
  · refine ⟨p.attemptCount, (Tally.of_phrasing? hgradable.phrasing).2, ?_⟩
    rw [hattempts]
    exact if_pos rfl
  · intro other hother
    rw [hattempts]
    exact if_neg hother
  · intro conceptId other
    refine ⟨Rota.lists_of_record hrecord, ?_⟩
    intro hlists
    refine Rota.lists_apply ?_ happly hlists
    intro huses
    exact huses
  · intro conceptId other
    exact Rota.points_of_record hrecord
  · intro conceptId hlists
    rw [← hgradable.belongs]
    exact (Rota.belongs hd hlists hgradable.phrasing).symm

/-! ## One move -/

/-- What a move does to a concept: it only takes away from what the concept can show, or after that
    counts an attempt at one of its phrasings. This is the one seen least, unless the concept
    prefers one. -/
inductive Moved (conceptId : String) (store next : σ) : Option (String × String) → Prop where
  | aside {review : Option (String × String)} : (∀ id, review ≠ some (conceptId, id)) →
      Narrows conceptId store next → Moved conceptId store next review
  | reviewed {id : String} {mid : σ} : Narrows conceptId store mid → CountsAttempt id mid next →
      (Unpointed store conceptId → LeastSeen store conceptId id) →
      Moved conceptId store next (some (conceptId, id))

theorem CountsAttempt.narrows (h : CountsAttempt id store next)
    (hid : ¬ Rota.Lists store conceptId id) : Narrows conceptId store next where
  lists other hother := (h.lists conceptId other).1 hother
  attempts other hother := by
    refine h.others other ?_
    rintro rfl
    exact hid ((h.lists conceptId other).1 hother)
  points other := h.points conceptId other

theorem Narrows.lists_counted (h : Narrows conceptId store mid)
    (hcounted : CountsAttempt id mid next) {other : String}
    (hother : Rota.Lists next conceptId other) : Rota.Lists store conceptId other :=
  h.lists other ((hcounted.lists conceptId other).1 hother)

theorem Narrows.unpointed_counted (h : Narrows conceptId store mid)
    (hcounted : CountsAttempt id mid next) (hstore : Unpointed store conceptId) :
    Unpointed next conceptId := by
  intro other hpoints hlists
  exact hstore other (h.points other (hcounted.points conceptId other hpoints))
    (h.lists_counted hcounted hlists)

/-- What a phrasing counts after an attempt was counted. -/
theorem Narrows.attempts_counted (h : Narrows conceptId store mid)
    (hcounted : CountsAttempt id mid next) {other : String}
    (hother : Rota.Lists next conceptId other) :
    (other = id ∧ ∃ n, Tally.attempts? store id = some n ∧
      Tally.attempts? next id = some (countUp n)) ∨
    other ≠ id ∧ Tally.attempts? next other = Tally.attempts? store other := by
  have hmid := (hcounted.lists conceptId other).1 hother
  by_cases hid : other = id
  · subst hid
    obtain ⟨n, hn, hcount⟩ := hcounted.counted
    rw [h.attempts other hmid] at hn
    exact .inl ⟨rfl, n, hn, hcount⟩
  · rw [hcounted.others other hid, h.attempts other hmid]
    exact .inr ⟨hid, rfl⟩

/-- What a move with given changes keeps of a store, and what it does to a concept. -/
structure AfterMove (changes : List StoreChange) (conceptId : String) (store next : σ)
    (review : Option (String × String)) : Prop where
  distinct : Rota.Distinct next
  moved : Moved conceptId store next review
  lists : ∀ id, (∀ ch ∈ changes, ¬ ch.Uses id) → Rota.Lists store conceptId id →
    Rota.Lists next conceptId id

theorem afterMove_run (hd : Rota.Distinct store) {chs : List StoreChange}
    (hspares : ∀ ch ∈ chs, ch.Spares conceptId) :
    AfterMove chs conceptId store (StoreChange.run store chs) none where
  distinct := Rota.distinct_run hd chs
  moved := .aside (fun _ h => by cases h) (.of_run hspares)
  lists _ huses hlists := Rota.lists_run huses hlists

theorem ReviewRound.afterMove (r : ReviewRound) (hd : Rota.Distinct store)
    (hspares : ∀ ch ∈ r.meanwhile, ch.Spares conceptId) :
    AfterMove r.meanwhile conceptId store (r.play store).1 (r.play store).2 := by
  have hmid := afterMove_run hd hspares
  have hnarrows : Narrows conceptId store (StoreChange.run store r.meanwhile) := .of_run hspares
  unfold play
  simp only
  split
  · rename_i f hf
    split
    · rename_i next outcome hsubmit
      obtain ⟨hnext, hcounted, hbelongs⟩ := countsAttempt_of_submit hmid.distinct hsubmit
      refine ⟨hnext, ?_, ?_⟩
      · by_cases hconcept : f.concept.id = conceptId
        · subst hconcept
          exact .reviewed hnarrows hcounted (leastSeen_of_found hd hf)
        · -- The phrasing is one of another concept.
          refine .aside ?_ (hnarrows.trans (hcounted.narrows ?_))
          · intro id hid
            exact hconcept (Prod.mk.inj (Option.some.inj hid)).1
          · intro hlists
            exact hconcept (hbelongs conceptId hlists).symm
      · intro id huses hlists
        exact (hcounted.lists conceptId id).2 (hmid.lists id huses hlists)
    · rename_i next err hsubmit
      obtain rfl := eq_of_submit_error hsubmit
      exact hmid
  · exact hmid

/-- A move whose changes spare the concept leaves it alone or shows what it has seen least. -/
theorem ReviewMove.afterMove (m : ReviewMove) (hd : Rota.Distinct store)
    (hspares : ∀ ch ∈ m.changes, ch.Spares conceptId) :
    AfterMove m.changes conceptId store (m.play store).1 (m.play store).2 := by
  cases m with
  | change ch => exact afterMove_run hd hspares
  | round r => exact r.afterMove hd hspares

theorem Moved.unpointed {review : Option (String × String)}
    (h : Moved conceptId store next review) (hunpointed : Unpointed store conceptId) :
    Unpointed next conceptId := by
  cases h with
  | aside _ hnarrows => exact hnarrows.unpointed hunpointed
  | reviewed hnarrows hcounted _ => exact hnarrows.unpointed_counted hcounted hunpointed

/-! ## How far the counters are apart -/

/-- No two phrasings that the concept can show count attempts that are more than `d` apart. -/
def Spread (store : σ) (conceptId : String) (d : Nat) : Prop :=
  ∀ p q m n, Rota.Lists store conceptId p → Rota.Lists store conceptId q →
    Tally.attempts? store p = some m → Tally.attempts? store q = some n → m.toNat ≤ n.toNat + d

theorem Spread.narrows {d : Nat} (h : Spread store conceptId d)
    (hnarrows : Narrows conceptId store next) : Spread next conceptId d := by
  intro p q m n hp hq hm hn
  rw [hnarrows.attempts p hp] at hm
  rw [hnarrows.attempts q hq] at hn
  exact h p q m n (hnarrows.lists p hp) (hnarrows.lists q hq) hm hn

/-- Counting where the least was counted does not drive the counters apart. -/
theorem Spread.counted {d : Nat} (h : Spread store conceptId d) (hd : 1 ≤ d)
    (hleast : LeastSeen store conceptId id) (hnarrows : Narrows conceptId store mid)
    (hcounted : CountsAttempt id mid next) : Spread next conceptId d := by
  intro p q m n hp hq hm hn
  rcases hnarrows.attempts_counted hcounted hp with ⟨rfl, k, hk, hup⟩ | ⟨-, hsame⟩
  · rw [hup, Option.some.injEq] at hm
    have hcount := toNat_countUp k
    rcases hnarrows.attempts_counted hcounted hq with ⟨rfl, -⟩ | ⟨-, hsame⟩
    · rw [hup, Option.some.injEq] at hn
      rw [← hm, ← hn]
      omega
    · -- The least rises above another one by one at most.
      rw [hsame] at hn
      have hkn := hleast.attempts_le q k n (hnarrows.lists_counted hcounted hq) hk hn
      rw [← hm]
      omega
  · rw [hsame] at hm
    have hp := hnarrows.lists_counted hcounted hp
    rcases hnarrows.attempts_counted hcounted hq with ⟨rfl, k, hk, hup⟩ | ⟨-, hsame⟩
    · rw [hup, Option.some.injEq] at hn
      have hcount := toNat_countUp k
      have hmk := h p q m k hp hleast.lists hm hk
      have hlt := k.toNat_lt
      rw [← hn]
      omega
    · rw [hsame] at hn
      exact h p q m n hp (hnarrows.lists_counted hcounted hq) hm hn

theorem Spread.moved {d : Nat} (h : Spread store conceptId d) (hd : 1 ≤ d)
    (hunpointed : Unpointed store conceptId) {review : Option (String × String)}
    (hmoved : Moved conceptId store next review) : Spread next conceptId d := by
  cases hmoved with
  | aside _ hnarrows => exact h.narrows hnarrows
  | reviewed hnarrows hcounted hleast => exact h.counted hd (hleast hunpointed) hnarrows hcounted

/-- After any moves the counters are no further apart than in the beginning, or by one. -/
theorem spread_playAll {d : Nat} (moves : List ReviewMove)
    (hspares : ∀ m ∈ moves, ∀ ch ∈ m.changes, ch.Spares conceptId) (hdistinct : Rota.Distinct store)
    (hunpointed : Unpointed store conceptId) (hd : 1 ≤ d) (h : Spread store conceptId d) :
    Rota.Distinct (playAll store moves).1 ∧ Spread (playAll store moves).1 conceptId d := by
  induction moves generalizing store with
  | nil => exact ⟨hdistinct, h⟩
  | cons m moves ih =>
    obtain ⟨hm, hmoves⟩ := List.forall_mem_cons.1 hspares
    have hafter := m.afterMove hdistinct hm
    exact ih hmoves hafter.distinct (hafter.moved.unpointed hunpointed)
      (h.moved hd hunpointed hafter.moved)

/-! ## Taking turns -/

/-- The phrasings `ids` are those that the concept can show, and none of them is preferred. Those of
    them that have had their turn were seen once more than the others, which were seen `n` times. -/
structure TakesTurns (store : σ) (conceptId : String) (ids : List String) (n : Nat)
    (seen : List String) : Prop where
  distinct : Rota.Distinct store
  unpointed : Unpointed store conceptId
  lists_iff : ∀ id, Rota.Lists store conceptId id ↔ id ∈ ids
  attempts : ∀ id ∈ ids, ∃ m, Tally.attempts? store id = some m ∧
    m.toNat = if id ∈ seen then n + 1 else n
  nodup : seen.Nodup
  subset : seen ⊆ ids

namespace TakesTurns

variable {ids seen : List String} {n : Nat}

theorem perm (h : TakesTurns store conceptId ids n seen) (hlength : seen.length = ids.length) :
    seen.Perm ids :=
  (List.subperm_of_subset h.nodup h.subset).perm_of_length_le hlength.ge

/-- When each phrasing has had its turn, the next turn begins. -/
theorem again (h : TakesTurns store conceptId ids n seen) (hlength : seen.length = ids.length) :
    TakesTurns store conceptId ids (n + 1) [] where
  distinct := h.distinct
  unpointed := h.unpointed
  lists_iff := h.lists_iff
  attempts id hid := by
    obtain ⟨m, hm, hcount⟩ := h.attempts id hid
    rw [if_pos ((h.perm hlength).mem_iff.2 hid)] at hcount
    exact ⟨m, hm, by simpa using hcount⟩
  nodup := List.nodup_nil
  subset := List.nil_subset _

theorem aside (h : TakesTurns store conceptId ids n seen) (hnext : Rota.Distinct next)
    (hnarrows : Narrows conceptId store next) (hkept : ∀ id ∈ ids, Rota.Lists next conceptId id) :
    TakesTurns next conceptId ids n seen where
  distinct := hnext
  unpointed := hnarrows.unpointed h.unpointed
  lists_iff id := ⟨fun hid => (h.lists_iff id).1 (hnarrows.lists id hid), hkept id⟩
  attempts id hid := by
    rw [hnarrows.attempts id (hkept id hid)]
    exact h.attempts id hid
  nodup := h.nodup
  subset := h.subset

/-- What is shown has not had its turn. -/
theorem not_mem_of_leastSeen (h : TakesTurns store conceptId ids n seen) (hids : ids.Nodup)
    (hlength : seen.length < ids.length) (hleast : LeastSeen store conceptId id) : id ∉ seen := by
  intro hseen
  -- Some phrasing still waits for its turn, and so it counts less.
  have hleft : ∃ other ∈ ids, other ∉ seen := by
    by_contra hall
    push Not at hall
    have hle := (List.subperm_of_subset hids hall).length_le
    omega
  obtain ⟨other, hother, hunseen⟩ := hleft
  obtain ⟨m, hm, hcount⟩ := h.attempts id (h.subset hseen)
  obtain ⟨k, hk, hcount'⟩ := h.attempts other hother
  rw [if_pos hseen] at hcount
  rw [if_neg hunseen] at hcount'
  have hle := hleast.attempts_le other m k ((h.lists_iff other).2 hother) hm hk
  omega

theorem reviewed (h : TakesTurns store conceptId ids n seen) (hids : ids.Nodup)
    (hlength : seen.length < ids.length) (hn : n < 4294967295) (hnext : Rota.Distinct next)
    (hnarrows : Narrows conceptId store mid) (hcounted : CountsAttempt id mid next)
    (hleast : LeastSeen store conceptId id)
    (hkept : ∀ id ∈ ids, Rota.Lists next conceptId id) :
    TakesTurns next conceptId ids n (seen ++ [id]) := by
  have hunseen := h.not_mem_of_leastSeen hids hlength hleast
  refine ⟨hnext, hnarrows.unpointed_counted hcounted h.unpointed, ?_, ?_, ?_, ?_⟩
  · intro other
    exact ⟨fun hother => (h.lists_iff other).1 (hnarrows.lists_counted hcounted hother),
      hkept other⟩
  · intro other hother
    obtain ⟨m, hm, hcount⟩ := h.attempts other hother
    rcases hnarrows.attempts_counted hcounted (hkept other hother) with
      ⟨rfl, k, hk, hup⟩ | ⟨hid, hsame⟩
    · rw [hk, Option.some.injEq] at hm
      rw [if_neg hunseen] at hcount
      have hadd := toNat_countUp k
      refine ⟨countUp k, hup, ?_⟩
      rw [if_pos (List.mem_append_right _ List.mem_cons_self)]
      rw [hm] at hadd ⊢
      omega
    · refine ⟨m, hsame.trans hm, ?_⟩
      simpa [hid] using hcount
  · rw [List.nodup_append]
    refine ⟨h.nodup, List.nodup_singleton _, ?_⟩
    intro a ha b hb heq
    rw [List.mem_singleton.1 hb] at heq
    exact hunseen (heq ▸ ha)
  · intro other hother
    rcases List.mem_append.1 hother with hother | hother
    · exact h.subset hother
    · rw [List.mem_singleton.1 hother]
      exact (h.lists_iff id).1 hleast.lists

theorem moved (h : TakesTurns store conceptId ids n seen) (hids : ids.Nodup)
    (hlength : seen.length < ids.length) (hn : n < 4294967295) {changes : List StoreChange}
    {review : Option (String × String)} (hafter : AfterMove changes conceptId store next review)
    (huses : ∀ ch ∈ changes, ∀ id ∈ ids, ¬ ch.Uses id) :
    (shownOf conceptId review.toList = [] ∧ TakesTurns next conceptId ids n seen) ∨
      ∃ id, shownOf conceptId review.toList = [id] ∧
        TakesTurns next conceptId ids n (seen ++ [id]) := by
  have hkept : ∀ id ∈ ids, Rota.Lists next conceptId id := by
    intro id hid
    exact hafter.lists id (fun ch hch => huses ch hch id hid) ((h.lists_iff id).2 hid)
  cases hafter.moved with
  | aside hreview hnarrows =>
    refine .inl ⟨?_, h.aside hafter.distinct hnarrows hkept⟩
    match review with
    | none => rfl
    | some (other, id) =>
      have hother : other ≠ conceptId := by
        rintro rfl
        exact hreview id rfl
      simp [shownOf, hother]
  | @reviewed id mid hnarrows hcounted hleast =>
    refine .inr ⟨id, by simp [shownOf], ?_⟩
    exact h.reviewed hids hlength hn hafter.distinct hnarrows hcounted (hleast h.unpointed) hkept

/-- Turn by turn each phrasing is shown once, as long as the counters can count on. -/
theorem block_perm (h : TakesTurns store conceptId ids n seen) (hids : ids.Nodup)
    (hlength : seen.length < ids.length) (moves : List ReviewMove)
    (hspares : ∀ m ∈ moves, ∀ ch ∈ m.changes, ch.Spares conceptId)
    (huses : ∀ m ∈ moves, ∀ ch ∈ m.changes, ∀ id ∈ ids, ¬ ch.Uses id) (j : Nat)
    (hj : n + j < 4294967295)
    (hshown : (j + 1) * ids.length ≤
      (seen ++ shownOf conceptId (playAll store moves).2).length) :
    (((seen ++ shownOf conceptId (playAll store moves).2).drop (j * ids.length)).take
      ids.length).Perm ids := by
  -- `seen` carries what was shown of the turn that is going on, `j` the turns that go before the
  -- block.
  induction moves generalizing store n seen j with
  | nil =>
    have hle : ids.length ≤ (j + 1) * ids.length := Nat.le_mul_of_pos_left _ (Nat.succ_pos j)
    simp only [playAll, shownOf, List.filter_nil, List.map_nil, List.append_nil] at hshown
    omega
  | cons m moves ih =>
    obtain ⟨hm, hmoves⟩ := List.forall_mem_cons.1 hspares
    obtain ⟨hmuses, hmovesuses⟩ := List.forall_mem_cons.1 huses
    have hafter := m.afterMove h.distinct hm
    have hreviews : shownOf conceptId (playAll store (m :: moves)).2 =
        shownOf conceptId (m.play store).2.toList ++
          shownOf conceptId (playAll (m.play store).1 moves).2 := by
      simp [playAll, shownOf]
    rw [hreviews] at hshown ⊢
    rcases h.moved hids hlength (by omega) hafter hmuses with ⟨hnone, hturn⟩ | ⟨id, hone, hturn⟩
    · rw [hnone, List.nil_append] at hshown ⊢
      exact ih hturn hlength hmoves hmovesuses j hj hshown
    · rw [hone, ← List.append_assoc] at hshown ⊢
      by_cases hfull : (seen ++ [id]).length = ids.length
      · cases j with
        | zero =>
          rw [Nat.zero_mul, List.drop_zero, List.take_left' hfull]
          exact hturn.perm hfull
        | succ j =>
          -- This turn is over, and the next one begins with nothing shown.
          have hpos : ([] : List String).length < ids.length := by
            rw [List.length_nil]
            omega
          have hdrop : (j + 1) * ids.length = (seen ++ [id]).length + j * ids.length := by
            rw [hfull, Nat.succ_mul, Nat.add_comm]
          rw [hdrop, List.drop_length_add_append]
          rw [Nat.succ_mul, List.length_append, hfull] at hshown
          exact ih (hturn.again hfull) hpos hmoves hmovesuses j (by omega) (by
            rw [List.nil_append]
            omega)
      · have hless : (seen ++ [id]).length < ids.length := by
          rw [List.length_append, List.length_singleton] at hfull ⊢
          omega
        exact ih hturn hless hmoves hmovesuses j hj hshown

end TakesTurns

/-! ## Rotation -/

/-- The counters of the phrasings of a list that can be shown are at most `d` apart. -/
def CountsWithin (ps : List Phrasing) (d : Nat) : Prop :=
  ∀ p ∈ showable none ps, ∀ q ∈ showable none ps, p.attemptCount.toNat ≤ q.attemptCount.toNat + d

/-- How far the counters are apart in what the store reports. -/
theorem spread_iff_countsWithin {d : Nat} (hd : Rota.Distinct store) {ps : List Phrasing}
    (hps : ReviewStore.phrasingsOf store conceptId = .ok ps) :
    Spread store conceptId d ↔ CountsWithin ps d := by
  have hcount (p : Phrasing) (hp : p ∈ showable none ps) :
      Tally.attempts? store p.id = some p.attemptCount :=
    Rota.attempts?_of_mem hd hps (Phrasing.mem_showable.1 hp).1
  constructor
  · intro h p hp q hq
    exact h p.id q.id _ _ ((Rota.lists_iff hps).2 ⟨p, hp, rfl⟩)
      ((Rota.lists_iff hps).2 ⟨q, hq, rfl⟩) (hcount p hp) (hcount q hq)
  · intro h _ _ m n hlists hlists' hm hn
    obtain ⟨p, hp, rfl⟩ := (Rota.lists_iff hps).1 hlists
    obtain ⟨q, hq, rfl⟩ := (Rota.lists_iff hps).1 hlists'
    rw [hcount p hp, Option.some.injEq] at hm
    rw [hcount q hq, Option.some.injEq] at hn
    rw [← hm, ← hn]
    exact h p hp q hq

/-- What the moves of a learner do to a concept whose changes spare it. The counters of the
    phrasings that it can show are no further apart than in the beginning, or by one. If they start
    level and no change is about any of these phrasings, then each block of reviews that is as long
    as there are phrasings shows each of them once, as long as the counters of the block can count
    on. -/
structure RotatesFairly (store : σ) (conceptId : String) : Prop where
  spread : ∀ moves, (∀ m ∈ moves, ∀ ch ∈ m.changes, ch.Spares conceptId) → ∀ d,
    Spread store conceptId d → Spread (playAll store moves).1 conceptId (max d 1)
  reported : ∀ moves, (∀ m ∈ moves, ∀ ch ∈ m.changes, ch.Spares conceptId) → ∀ d ps qs,
    ReviewStore.phrasingsOf store conceptId = .ok ps →
    ReviewStore.phrasingsOf (playAll store moves).1 conceptId = .ok qs →
    CountsWithin ps d → CountsWithin qs (max d 1)
  blocks : ∀ moves, (∀ m ∈ moves, ∀ ch ∈ m.changes, ch.Spares conceptId) →
    ∀ (ids : List String) (start : UInt32), ids.Nodup →
    (∀ id, Rota.Lists store conceptId id ↔ id ∈ ids) →
    (∀ id ∈ ids, Tally.attempts? store id = some start) →
    (∀ m ∈ moves, ∀ ch ∈ m.changes, ∀ id ∈ ids, ¬ ch.Uses id) →
    ∀ j, start.toNat + j < 4294967295 →
    (j + 1) * ids.length ≤ (shownOf conceptId (playAll store moves).2).length →
    (((shownOf conceptId (playAll store moves).2).drop (j * ids.length)).take ids.length).Perm ids

theorem rotatesFairly (hd : Rota.Distinct store) (hunpointed : Unpointed store conceptId) :
    RotatesFairly store conceptId := by
  have hplay (moves : List ReviewMove)
      (hspares : ∀ m ∈ moves, ∀ ch ∈ m.changes, ch.Spares conceptId) (d : Nat)
      (h : Spread store conceptId d) : Rota.Distinct (playAll store moves).1 ∧
        Spread (playAll store moves).1 conceptId (max d 1) := by
    refine spread_playAll moves hspares hd hunpointed (Nat.le_max_right d 1) ?_
    intro p q m n hp hq hm hn
    have hle := h p q m n hp hq hm hn
    omega
  refine ⟨?_, ?_, ?_⟩
  · intro moves hspares d h
    exact (hplay moves hspares d h).2
  · intro moves hspares d ps qs hps hqs h
    obtain ⟨hfinal, hspread⟩ := hplay moves hspares d ((spread_iff_countsWithin hd hps).2 h)
    exact (spread_iff_countsWithin hfinal hqs).1 hspread
  · intro moves hspares ids start hids hlists hstart huses j hj hshown
    cases ids with
    | nil => exact List.Perm.refl []
    | cons first rest =>
      have hturn : TakesTurns store conceptId (first :: rest) start.toNat [] := by
        refine ⟨hd, hunpointed, hlists, ?_, List.nodup_nil, List.nil_subset _⟩
        intro id hid
        exact ⟨start, hstart id hid, rfl⟩
      exact hturn.block_perm hids (Nat.succ_pos _) moves hspares huses j hj hshown

end Rotation

/-- In every store a concept that prefers none of the phrasings that it can show rotates them
    fairly, as long as nothing but archiving happens to them. -/
theorem rotatesFairly_of_unpointed (conceptId : String) :
    (∀ s : VolatileStore, s.Distinct → Unpointed s conceptId → RotatesFairly s conceptId) ∧
    ∀ db : DatabaseStore, db.Distinct → Unpointed db conceptId → RotatesFairly db conceptId := by
  constructor
  · intro s hs hunpointed
    exact rotatesFairly hs hunpointed
  · intro db hdb hunpointed
    exact rotatesFairly hdb hunpointed

/-! ## A concept with two phrasings -/

/-- A phrasing of the concept `c` that was attempted some times, the last time at the epoch. -/
def Phrasing.attempted (id : String) (n : UInt32) : Phrasing :=
  { Phrasing.create id "c" "question" "answer" .epoch with
    attemptCount := n, lastAttemptedAt := some .epoch }

/-- A store of the concept `c` with two phrasings. -/
def VolatileStore.pair (memory : MemoryState) (p q : Phrasing) (log : List Interaction) :
    VolatileStore :=
  ⟨[.create "c" "title" memory .epoch], [p, q], log⟩

/-- A day after the epoch. -/
def Instant.dayAfter : Instant :=
  (of? 86400 0).get rfl

/-- The learner is asked a day after the epoch. The answer is dated to the epoch. -/
def ReviewRound.backdated (interactionId : String) : ReviewRound where
  engine := .daily
  asked := .dayAfter
  putOff := []
  meanwhile := []
  reply := ⟨"answer", false, 0, none, interactionId⟩
  answered := .epoch

/-- The memory after an answer that is dated to the epoch. -/
def MemoryState.backdated (memory : MemoryState) : MemoryState :=
  { memory with
    state := .review, reps := memory.reps + 1, lastReview := some .epoch, nextReview := .dayAfter }

section Pair

variable {memory : MemoryState} {m n : UInt32} {log : List Interaction}

theorem VolatileStore.distinct_pair :
    (pair memory (.attempted "p" m) (.attempted "q" n) log).Distinct := by
  constructor
  · exact List.nodup_singleton _
  · show ["p", "q"].Nodup
    decide

theorem VolatileStore.unpointed_pair (p q : Phrasing) : Unpointed (pair memory p q log) "c" := by
  rintro id ⟨c, hc, -, hpoints⟩
  rw [List.mem_singleton.1 hc] at hpoints
  cases hpoints

theorem VolatileStore.lists_pair (id : String) :
    Rota.Lists (pair memory (.attempted "p" m) (.attempted "q" n) log) "c" id ↔
      id ∈ ["p", "q"] := by
  constructor
  · rintro ⟨p, hp, rfl, -⟩
    exact List.mem_map_of_mem (f := Phrasing.id) hp
  · intro hid
    rcases List.mem_cons.1 hid with rfl | hid
    · exact ⟨.attempted "p" m, List.mem_cons_self, rfl, rfl, rfl, rfl⟩
    · rw [List.mem_singleton.1 hid]
      exact ⟨.attempted "q" n, List.mem_cons_of_mem _ (List.mem_singleton_self _), rfl, rfl, rfl,
        rfl⟩

/-- A round about a phrasing is taken, and counted. -/
theorem ReviewRound.play_backdated {s next : VolatileStore} {f : FoundCandidate} {p : String}
    (id : String)
    (hf : nextCandidate .daily s .dayAfter [] = .ok (.found f))
    (hconcept : f.concept = .create "c" "title" memory .epoch)
    (hphrasing : f.phrasing = .attempted p n)
    (hfind : ReviewStore.concept? s "c" = .ok (some (.create "c" "title" memory .epoch)))
    (hfind' : ReviewStore.phrasing? s p = .ok (some (.attempted p n)))
    (hrecord : ReviewStore.record s
      { conceptId := "c", memory := memory.backdated, phrasingId := p, attemptCount := countUp n,
        lastAttemptedAt := .epoch,
        interaction := ⟨id, "c", p, "answer", false, 0, none, .epoch⟩ } = .ok next) :
    (backdated id).play s = (next, some ("c", p)) := by
  have hupdate : Engine.daily.update memory (.ofCorrect false) .epoch = .ok memory.backdated := rfl
  have hschedule : ∃ result,
      Engine.daily.schedule (.create "c" "title" memory .epoch) false .epoch = .ok result ∧
        result.memory = memory.backdated :=
    ⟨_, Engine.schedule_eq_ok.2 ⟨_, hupdate, rfl⟩, rfl⟩
  obtain ⟨result, hresult, hmemory⟩ := hschedule
  have hrequest : (backdated id).reply.request f = ⟨"c", p, "answer", false, 0, none⟩ := by
    rw [Reply.request, hconcept, hphrasing]
    rfl
  have hsubmit : submit .daily s ⟨"c", p, "answer", false, 0, none⟩ .epoch id =
      (next, .ok ⟨result.nextReview, result.scheduledDays, result.lifecycleState, id⟩) := by
    refine submit_eq_ok_iff_gradable.2
      ⟨_, _, result, ⟨hfind, hfind', rfl, rfl, rfl, hresult⟩, ?_, rfl⟩
    rw [← hrecord, SubmitRequest.patch, hmemory]
    rfl
  rw [← hrequest] at hsubmit
  have hplay : (backdated id).play s = (next, some (f.concept.id, f.phrasing.id)) :=
    play_of_taken hf hsubmit
  rw [hplay, hconcept, hphrasing]
  rfl

variable (m n log)

/-- The phrasing seen less is asked, or the first one. -/
theorem nextCandidate_pair {now : Instant} (hdue : memory.isDue now) (e : Engine)
    (putOff : List String) :
    let p := Phrasing.attempted "p" m
    let q := Phrasing.attempted "q" n
    ∃ f, nextCandidate e (VolatileStore.pair memory p q log) now putOff = .ok (.found f) ∧
      f.concept = .create "c" "title" memory .epoch ∧ f.phrasing = if n < m then q else p := by
  intro p q
  let c := Concept.create "c" "title" memory .epoch
  have hdistinct : (VolatileStore.pair memory p q log).Distinct := VolatileStore.distinct_pair
  obtain ⟨answer, hanswer, hright⟩ := VolatileStore.exists_isAnswer hdistinct e now putOff
  have hcandidate : (VolatileStore.pair memory p q log).IsCandidate now c :=
    ⟨List.mem_singleton_self c, hdue, p, List.mem_cons_self, rfl, rfl, rfl⟩
  have hless : q.seenKey < p.seenKey ↔ n < m := by
    rw [Phrasing.seenKey, Phrasing.seenKey, Prod.Lex.toLex_lt_toLex, UInt32.lt_iff_toNat_lt]
    exact or_iff_left fun h => absurd h.2 (lt_irrefl _)
  cases answer with
  | pending => exact hright.elim
  | empty => exact absurd hcandidate (hright c)
  | found f =>
    obtain ⟨hf, -, hchoice, -⟩ := hright
    have hconcept : f.concept = c := List.mem_singleton.1 hf.1
    refine ⟨f, hanswer, hconcept, ?_⟩
    rw [hconcept] at hchoice
    have hp : (VolatileStore.pair memory p q log).Shows c p := ⟨List.mem_cons_self, rfl, rfl, rfl⟩
    have hq : (VolatileStore.pair memory p q log).Shows c q :=
      ⟨List.mem_cons_of_mem _ (List.mem_singleton_self q), rfl, rfl, rfl⟩
    have hne : p ≠ q := by
      intro heq
      have hid : "p" = "q" := congrArg Phrasing.id heq
      exact absurd hid (by decide)
    rcases List.mem_cons.1 hchoice.shows.1 with heq | hmem
    · rw [heq] at hchoice ⊢
      rcases hchoice.least rfl hq hne.symm with hsafe | ⟨hkey, -⟩
      · rw [if_neg (hless.not.1 hsafe.not_gt)]
      · rw [if_neg (hless.not.1 hkey.le.not_gt)]
    · rw [List.mem_singleton.1 hmem] at hchoice ⊢
      rcases hchoice.least rfl hp hne with hless' | ⟨-, hage⟩
      · rw [if_pos (hless.1 hless')]
      · have hgt : VolatileStore.compareAge q p = .gt := by
          show (compare Instant.epoch .epoch).then (compare "q" "p") = .gt
          decide
        rw [hgt] at hage
        cases hage

/-- The phrasing seen less is reviewed, or the first one. The concept is due again a day later. -/
theorem play_pair (hdue : memory.isDue .dayAfter) (id : String) :
    let p := Phrasing.attempted "p" m
    let q := Phrasing.attempted "q" n
    ∃ memory' log', memory'.isDue .dayAfter ∧
      (ReviewRound.backdated id).play (VolatileStore.pair memory p q log) =
        if n < m then
          (VolatileStore.pair memory' p (.attempted "q" (countUp n)) log', some ("c", "q"))
        else (VolatileStore.pair memory' (.attempted "p" (countUp m)) q log', some ("c", "p")) := by
  intro p q
  obtain ⟨f, hf, hconcept, hphrasing⟩ := nextCandidate_pair m n log hdue .daily []
  have hagain : memory.backdated.isDue .dayAfter :=
    decide_eq_true (Instant.le_iff.2 (.inr ⟨rfl, Nat.le_refl _⟩))
  by_cases hnm : n < m
  · rw [if_pos hnm] at hphrasing
    refine ⟨memory.backdated, log ++ [⟨id, "c", "q", "answer", false, 0, none, .epoch⟩], hagain, ?_⟩
    rw [if_pos hnm]
    exact ReviewRound.play_backdated id hf hconcept hphrasing rfl rfl rfl
  · rw [if_neg hnm] at hphrasing
    refine ⟨memory.backdated, log ++ [⟨id, "c", "p", "answer", false, 0, none, .epoch⟩], hagain, ?_⟩
    rw [if_neg hnm]
    exact ReviewRound.play_backdated id hf hconcept hphrasing rfl rfl rfl

/-- The phrasings that are shown in some rounds, by what they count. -/
def shownByCount (m n : UInt32) : Nat → List String
  | 0 => []
  | k + 1 =>
    if n < m then "q" :: shownByCount m (countUp n) k else "p" :: shownByCount (countUp m) n k

theorem shownOf_pair (hdue : memory.isDue .dayAfter) (ids : List String) :
    shownOf "c" (playAll (VolatileStore.pair memory (.attempted "p" m) (.attempted "q" n) log)
      (ids.map fun id => .round (.backdated id))).2 = shownByCount m n ids.length := by
  induction ids generalizing memory m n log with
  | nil => rfl
  | cons id ids ih =>
    obtain ⟨memory', log', hdue', hplay⟩ := play_pair m n log hdue id
    rw [List.map_cons, List.length_cons, shownByCount]
    by_cases hnm : n < m
    · rw [if_pos hnm] at hplay ⊢
      simp only [playAll, ReviewMove.play, hplay]
      rw [← ih m (countUp n) log' hdue']
      rfl
    · rw [if_neg hnm] at hplay ⊢
      simp only [playAll, ReviewMove.play, hplay]
      rw [← ih (countUp m) n log' hdue']
      rfl

end Pair

theorem rotatesFairly_pair :
    let s := VolatileStore.pair (.fresh .epoch) (.attempted "p" 1) (.attempted "q" 1) []
    let moves := ["i", "j", "k", "l"].map fun id => ReviewMove.round (.backdated id)
    let shown := shownOf "c" (playAll s moves).2
    shown = ["p", "q", "p", "q"] ∧ ((shown.drop 2).take 2).Perm ["p", "q"] ∧
      RotatesFairly s.tables "c" := by
  intro s moves shown
  obtain ⟨hvolatile, hdatabase⟩ := rotatesFairly_of_unpointed "c"
  have hshown : shown = ["p", "q", "p", "q"] := by
    refine (shownOf_pair 1 1 [] ?_ _).trans ?_
    · decide
    · decide
  have hlength : shown.length = 4 := congrArg List.length hshown
  refine ⟨hshown, ?_, ?_⟩
  · refine (hvolatile s VolatileStore.distinct_pair (VolatileStore.unpointed_pair _ _)).blocks moves
      ?_ ["p", "q"] 1 (by decide) VolatileStore.lists_pair (by decide) ?_ 1 (by decide) hlength.ge
    · simp [moves, ReviewMove.changes, ReviewRound.backdated]
    · simp [moves, ReviewMove.changes, ReviewRound.backdated]
  · refine hdatabase s.tables ⟨by decide, by decide⟩ ?_
    rintro id ⟨r, hr, -, hpoints⟩
    rw [List.mem_singleton.1 hr] at hpoints
    cases hpoints

/-- When the counters have come to their end, a phrasing is shown twice before the other one. -/
theorem not_perm_of_saturated :
    let s := VolatileStore.pair (.fresh .epoch) (.attempted "p" 4294967294)
      (.attempted "q" 4294967294) []
    let moves := ["i", "j", "k", "l"].map fun id => ReviewMove.round (.backdated id)
    let shown := shownOf "c" (playAll s moves).2
    s.Distinct ∧ Unpointed s "c" ∧ (∀ id, Rota.Lists s "c" id ↔ id ∈ ["p", "q"]) ∧
      (∀ id ∈ ["p", "q"], Tally.attempts? s id = some 4294967294) ∧
      (∀ m ∈ moves, m.changes = []) ∧ shown = ["p", "q", "p", "p"] ∧
      ¬ ((shown.drop 2).take 2).Perm ["p", "q"] := by
  intro s moves shown
  have hshown : shown = ["p", "q", "p", "p"] := by
    refine (shownOf_pair 4294967294 4294967294 [] ?_ _).trans ?_
    · decide
    · decide
  refine ⟨VolatileStore.distinct_pair, VolatileStore.unpointed_pair _ _, VolatileStore.lists_pair,
    by decide, by decide, hshown, ?_⟩
  rw [hshown]
  decide

end SpacedReview
