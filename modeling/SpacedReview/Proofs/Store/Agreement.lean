import Mathlib.Logic.Function.Basic
import SpacedReview.Proofs.Store.Changes
import SpacedReview.Proofs.Store.Restamping

/-!
# Both stores agree

A volatile store and a database that start empty and go through the same changes end every change
in the same way and answer every question alike, as long as the database keeps what it is given as
it is. Only the time of change of a concept can differ: pointing a concept at a phrasing sets it to
the wall clock's time in the database, until the next answer sets it in both stores.

## Main definitions

- `StoreChange.run`, `StoreChange.outcomes` — a store after some changes, and how they ended
- `StoreChange.Allowed` — changes whose records a database keeps as they are
- `StoresAgree` — equal answers, up to given times of change

## Main statements

- `storesAgree_of_admissible` — both stores after the same changes
-/

namespace SpacedReview

namespace StoreChange

section Run

variable {σ : Type} [ReviewStore σ] [Catalogued σ]

/-- The store after the change; a change that fails leaves it as it is. -/
def after (store : σ) (ch : StoreChange) : σ :=
  match ch.apply store with
  | .ok store => store
  | .error _ => store

/-- The store after some changes. -/
def run (store : σ) (chs : List StoreChange) : σ :=
  chs.foldl after store

/-- What every change that succeeds preserves is preserved by some changes. -/
theorem invariant_run {P : σ → Prop} {chs : List StoreChange}
    (hstep : ∀ ch ∈ chs, ∀ store next, P store → ch.apply store = .ok next → P next) {store : σ}
    (h : P store) : P (run store chs) := by
  induction chs generalizing store with
  | nil => exact h
  | cons ch chs ih =>
    obtain ⟨hch, hchs⟩ := List.forall_mem_cons.1 hstep
    refine ih hchs ?_
    unfold after
    split
    · rename_i next happly
      exact hch store next h happly
    · exact h

/-- How each of some changes ended. -/
def outcomes (store : σ) : List StoreChange → List (Except StoreError Unit)
  | [] => []
  | ch :: chs => (ch.apply store).map (fun _ => ()) :: outcomes (ch.after store) chs

end Run

/-- The wall clock's times that count as times of change in a database, after a change that
    succeeded. -/
def wallTimes (times : String → Option Instant) : StoreChange → String → Option Instant
  | insertConcept c => Function.update times c.id none
  | setCanonical id _ clock => Function.update times id (some clock.cut)
  | record p => Function.update times p.conceptId none
  | _ => times

/-- The wall clock's times that count as times of change after some changes of a store. -/
def wallTimesAfter (times : String → Option Instant) (s : VolatileStore) :
    List StoreChange → String → Option Instant
  | [] => times
  | ch :: chs =>
    match ch.apply s with
    | .ok s => wallTimesAfter (ch.wallTimes times) s chs
    | .error _ => wallTimesAfter times s chs

/-- A change that a database can follow: new records have new identifiers and refer to records that
    are there, times are whole microseconds in the years 0 to 9999, no number is minus zero or not a
    number, and an elapsed time fits into a signed 64-bit number. The wall clock only has to show a
    year from 0 to 9999. -/
def Allowed (s : VolatileStore) : StoreChange → Prop
  | insertConcept c =>
    ¬ Keyed.has Concept.id s.concepts c.id ∧ c.Within Instant.IsMicro Binary64.IsPlain
  | insertPhrasing p =>
    ¬ Keyed.has Phrasing.id s.phrasings p.id ∧ Keyed.has Concept.id s.concepts p.conceptId ∧
      p.Within Instant.IsMicro
  | setCanonical _ _ clock => clock.HasPlainYear
  | archivePhrasing _ now => now.IsMicro
  | record p =>
    p.Within Instant.IsMicro Binary64.IsPlain ∧
      p.interaction.elapsedMs.toNat ≤ InteractionTable.longestElapsed ∧
      ¬ Keyed.has Interaction.id s.log p.interaction.id ∧
      (Keyed.has Concept.id s.concepts p.conceptId →
        Keyed.has Phrasing.id s.phrasings p.phrasingId →
          Keyed.has Concept.id s.concepts p.interaction.conceptId ∧
            Keyed.has Phrasing.id s.phrasings p.interaction.phrasingId)

/-- Every change of a list can be followed when its turn comes. -/
def Admissible (s : VolatileStore) : List StoreChange → Prop
  | [] => True
  | ch :: chs => ch.Allowed s ∧ Admissible (ch.after s) chs

end StoreChange

/-- A database answers every question as a volatile store does, with the given times of change. -/
structure StoresAgree (times : String → Option Instant) (s : VolatileStore) (db : DatabaseStore) :
    Prop where
  concept? : ∀ id, ReviewStore.concept? db id =
    (ReviewStore.concept? s id).map (Option.map (·.restamp times))
  phrasing? : ∀ id, ReviewStore.phrasing? db id = ReviewStore.phrasing? s id
  due : ∀ (now : Instant) (limit : Option Nat), now.HasPlainYear →
    ReviewStore.due db now limit = (ReviewStore.due s now limit).map (List.map (·.restamp times))
  phrasingsOf : ∀ id, ReviewStore.phrasingsOf db id = ReviewStore.phrasingsOf s id
  recent : ∀ id limit, ReviewStore.recent db id limit = ReviewStore.recent s id limit
  stats : ∀ now : Instant, now.HasPlainYear → ReviewStore.stats db now = ReviewStore.stats s now
  next : ∀ (e : Engine) (now : Instant) (putOff : List String), now.HasPlainYear →
    nextCandidate e db now putOff = (nextCandidate e s now putOff).map (·.restamp times)

namespace VolatileStore

variable {s : VolatileStore} {times : String → Option Instant}

theorem storesAgree_tables (h : (s.restamp times).Kept) :
    StoresAgree times s (s.restamp times).tables where
  concept? id := by
    rw [concept?_tables h]
    show Except.ok _ = .ok _
    rw [find?_restamp]
  phrasing? id := phrasing?_tables h id
  due now limit hnow := by
    rw [due_tables h hnow]
    show Except.ok _ = .ok _
    rw [due_restamp]
  phrasingsOf id := phrasingsOf_tables h id
  recent id limit := recent_tables h id limit
  stats now hnow := by
    rw [stats_tables h hnow]
    show Except.ok _ = .ok _
    rw [stats_restamp]
  next e now putOff hnow := by
    rw [nextCandidate_tables h hnow, nextCandidate_restamp]

/-! ## One change -/

theorem restamp_insertConcept {c : Concept} (hnew : ¬ Keyed.has Concept.id s.concepts c.id) :
    (s.insertConcept c).restamp (Function.update times c.id none) =
      (s.restamp times).insertConcept c := by
  have hnew' : ¬ Keyed.has Concept.id (s.restamp times).concepts c.id := by
    rw [has_restamp]
    exact hnew
  have hold : s.concepts.map (·.restamp (Function.update times c.id none)) =
      s.concepts.map (·.restamp times) := by
    refine List.map_congr_left fun d hd => Concept.restamp_of_eq (Function.update_of_ne ?_ _ _)
    intro hid
    exact hnew ((Keyed.has_iff _).2 ⟨d, hd, hid⟩)
  have hc : c.restamp (Function.update times c.id none) = c := by
    rw [Concept.restamp, Function.update_self]
    rfl
  rw [insertConcept, insertConcept, Keyed.put_of_not_has _ hnew, Keyed.put_of_not_has _ hnew']
  simp only [restamp, List.map_append, List.map_singleton, hold, hc]

/-- Changing a concept and replacing times of change, if the new time of the changed concept is the
    one that the change sets. -/
theorem map_restamp_change (s : VolatileStore) (times : String → Option Instant) (id : String)
    (f g : Concept → Concept) (time : Option Instant) (h : ∀ c, c.id = id →
      (f c).restamp (Function.update times id time) = g (c.restamp times)) :
    (Keyed.change Concept.id s.concepts id f).map (·.restamp (Function.update times id time)) =
      Keyed.change Concept.id (s.concepts.map (·.restamp times)) id g := by
  rw [Keyed.change, Keyed.change, List.map_map, List.map_map]
  refine List.map_congr_left fun c _ => ?_
  show (if c.id = id then f c else c).restamp _ = if c.id = id then g (c.restamp times) else _
  by_cases hc : c.id = id
  · rw [if_pos hc, if_pos hc, h c hc]
  · rw [if_neg hc, if_neg hc]
    exact Concept.restamp_of_eq (Function.update_of_ne hc _ _)

theorem restamp_pointed (s : VolatileStore) (id : String) (o : Option String) (clock : Instant) :
    restamp (Function.update times id (some clock.cut))
        { s with concepts := Keyed.change Concept.id s.concepts id fun c =>
                   { c with canonicalPhrasing := o } } =
      (s.restamp times).pointed id o clock := by
  have hchange := map_restamp_change s times id (fun c => { c with canonicalPhrasing := o })
    (fun c => { c with canonicalPhrasing := o, updatedAt := clock.cut }) (some clock.cut)
    fun c hc => by
      subst hc
      simp only [Concept.restamp, Function.update_self, Option.getD_some]
  simp only [restamp, pointed, hchange]

theorem restamp_recorded (s : VolatileStore) (p : ReviewPatch) :
    (s.recorded p).restamp (Function.update times p.conceptId none) =
      (s.restamp times).recorded p := by
  have hchange := map_restamp_change s times p.conceptId p.onConcept p.onConcept none
    fun c hc => by
      have htime : Function.update times p.conceptId none (p.onConcept c).id = none := by
        rw [p.onConcept_id hc, Function.update_self]
      rw [Concept.restamp, htime]
      rfl
  simp only [restamp, recorded, hchange]

theorem archivePhrasing_restamp (s : VolatileStore) (id : String) (now : Instant) :
    (s.restamp times).archivePhrasing id now =
      (s.archivePhrasing id now).map (·.restamp times) := by
  have hphrasings : (s.restamp times).phrasings = s.phrasings := rfl
  rw [archivePhrasing, archivePhrasing, hphrasings]
  cases Keyed.find? Phrasing.id s.phrasings id with
  | none => rfl
  | some p =>
    by_cases hp : p.archivedAt.isSome
    · simp only [if_pos hp]
      rfl
    · simp only [if_neg hp]
      rfl

theorem archivePhrasing_error {id : String} {now : Instant} {e : StoreError}
    (h : s.archivePhrasing id now = .error e) : e = .notFound id := by
  unfold archivePhrasing at h
  cases hfind : Keyed.find? Phrasing.id s.phrasings id with
  | none =>
    rw [hfind] at h
    exact (Except.error.inj h).symm
  | some p =>
    rw [hfind] at h
    by_cases hp : p.archivedAt.isSome
    · simp only [if_pos hp] at h
      exact (Except.error.inj h).symm
    · simp only [if_neg hp] at h
      exact absurd h (by simp)

/-- A change ends in both stores in the same way: it leaves stores that go on agreeing, or it fails
    because a record is not there. -/
def EndsAlike (times : String → Option Instant) (s : VolatileStore) (ch : StoreChange) : Prop :=
  (∃ s', ch.apply s = .ok s' ∧ (s'.restamp (ch.wallTimes times)).Kept ∧
    ch.apply (s.restamp times).tables = .ok (s'.restamp (ch.wallTimes times)).tables) ∨
  ∃ id, ch.apply s = .error (.notFound id) ∧
    ch.apply (s.restamp times).tables = .error (.notFound id)

theorem endsAlike_insertConcept (h : (s.restamp times).Kept) {c : Concept}
    (hch : (StoreChange.insertConcept c).Allowed s) : EndsAlike times s (.insertConcept c) := by
  obtain ⟨hnew, hc⟩ := hch
  have hnew' : ¬ Keyed.has Concept.id (s.restamp times).concepts c.id := by
    rw [has_restamp]
    exact hnew
  have hstamp : (s.insertConcept c).restamp (Function.update times c.id none) =
      (s.restamp times).insertConcept c := restamp_insertConcept hnew
  have hinsert : (s.restamp times).tables.insertConcept c =
      .ok ((s.restamp times).insertConcept c).tables :=
    insertConcept_tables_eq_ok.2
      ⟨⟨hc.memory.stability.1, hc.memory.difficulty.1⟩, hnew', by rw [Concept.kept_of_within hc]⟩
  refine .inl ⟨s.insertConcept c, rfl, ?_, ?_⟩
  · show ((s.insertConcept c).restamp (Function.update times c.id none)).Kept
    rw [hstamp]
    exact h.insertConcept hc
  · show _ = Except.ok ((s.insertConcept c).restamp (Function.update times c.id none)).tables
    rw [hstamp]
    exact hinsert

theorem endsAlike_insertPhrasing (h : (s.restamp times).Kept) {p : Phrasing}
    (hch : (StoreChange.insertPhrasing p).Allowed s) : EndsAlike times s (.insertPhrasing p) := by
  obtain ⟨hnew, hconcept, hp⟩ := hch
  have hconcept' : Keyed.has Concept.id (s.restamp times).concepts p.conceptId := by
    rw [has_restamp]
    exact hconcept
  have hinsert : (s.restamp times).tables.insertPhrasing p = .ok (tables { s.restamp times with
      phrasings := Keyed.put Phrasing.id s.phrasings p }) := by
    refine insertPhrasing_tables_eq_ok.2 ⟨hnew, hconcept', ?_⟩
    rw [Phrasing.kept_of_within hp]
    rfl
  exact .inl ⟨_, insertPhrasing_eq_ok.2 ⟨hconcept, rfl⟩, h.put_phrasing hp, hinsert⟩

theorem endsAlike_setCanonical (h : (s.restamp times).Kept) {id : String} {o : Option String}
    {clock : Instant} (hch : (StoreChange.setCanonical id o clock).Allowed s) :
    EndsAlike times s (.setCanonical id o clock) := by
  have hset : (s.restamp times).tables.setCanonical id o clock = _ :=
    setCanonical_tables _ id o clock
  rw [has_restamp] at hset
  by_cases hconcept : Keyed.has Concept.id s.concepts id
  · rw [if_pos hconcept] at hset
    refine .inl ⟨_, setCanonical_eq_ok.2 ⟨hconcept, rfl⟩, ?_, ?_⟩
    · show (restamp (Function.update times id (some clock.cut)) _).Kept
      rw [restamp_pointed]
      exact h.pointed id o hch
    · show _ = Except.ok (restamp (Function.update times id (some clock.cut)) _).tables
      rw [restamp_pointed]
      exact hset
  · rw [if_neg hconcept] at hset
    refine .inr ⟨id, ?_, hset⟩
    show s.setCanonical id o = _
    rw [setCanonical, if_neg hconcept]

theorem endsAlike_archivePhrasing (h : (s.restamp times).Kept) {id : String} {now : Instant}
    (hch : (StoreChange.archivePhrasing id now).Allowed s) :
    EndsAlike times s (.archivePhrasing id now) := by
  have harchive : (s.restamp times).tables.archivePhrasing id now =
      ((s.archivePhrasing id now).map (·.restamp times)).map tables := by
    rw [archivePhrasing_tables, Instant.cut_of_isMicro hch, archivePhrasing_restamp]
  cases hs : s.archivePhrasing id now with
  | error e =>
    obtain rfl := archivePhrasing_error hs
    exact .inr ⟨id, hs, by rw [hs] at harchive; exact harchive⟩
  | ok s' =>
    obtain ⟨p, -, -, rfl⟩ := archivePhrasing_eq_ok.1 hs
    rw [hs] at harchive
    exact .inl ⟨_, hs, h.archived id hch, harchive⟩

theorem endsAlike_record (h : (s.restamp times).Kept) {p : ReviewPatch}
    (hch : (StoreChange.record p).Allowed s) : EndsAlike times s (.record p) := by
  obtain ⟨hp, helapsed, hnew, hrefers⟩ := hch
  have hnumeric : p.memory.IsNumeric := ⟨hp.memory.stability.1, hp.memory.difficulty.1⟩
  have hkept : p.kept = p := by
    rw [ReviewPatch.kept, MemoryState.kept_of_within hp.memory,
      Instant.cut_of_isMicro hp.lastAttemptedAt,
      Interaction.kept_of_isMicro hp.attemptedAt helapsed]
  have hstamp : (s.recorded p).restamp (Function.update times p.conceptId none) =
      (s.restamp times).recorded p := restamp_recorded s p
  -- Both stores look for the concept first, so one that is missing hides a missing phrasing.
  by_cases hconcept : Keyed.has Concept.id s.concepts p.conceptId
  · have hconcept' : Keyed.has Concept.id (s.restamp times).concepts p.conceptId := by
      rw [has_restamp]
      exact hconcept
    by_cases hphrasing : Keyed.has Phrasing.id s.phrasings p.phrasingId
    · obtain ⟨hto, hto'⟩ := hrefers hconcept hphrasing
      have hrecord : (s.restamp times).tables.record p =
          .ok ((s.restamp times).recorded p).tables := by
        refine record_tables_eq_ok.2
          ⟨hconcept', hphrasing, hnumeric, hnew, ?_, hto', by rw [hkept]⟩
        rw [has_restamp]
        exact hto
      refine .inl ⟨s.recorded p, record_eq_ok.2 ⟨hconcept, hphrasing, rfl⟩, ?_, ?_⟩
      · show ((s.recorded p).restamp (Function.update times p.conceptId none)).Kept
        rw [hstamp]
        exact h.recorded hp helapsed
      · show _ =
          Except.ok ((s.recorded p).restamp (Function.update times p.conceptId none)).tables
        rw [hstamp]
        exact hrecord
    · have hfails : s.record p = .error (.notFound p.phrasingId) := by
        rw [record, if_neg (by simp [hconcept]), if_pos (by simp [hphrasing])]
      exact .inr ⟨p.phrasingId, hfails,
        record_tables_of_not_has_phrasing hnumeric hconcept' hphrasing⟩
  · have hconcept' : ¬ Keyed.has Concept.id (s.restamp times).concepts p.conceptId := by
      rw [has_restamp]
      exact hconcept
    have hfails : s.record p = .error (.notFound p.conceptId) := by
      rw [record, if_pos (by simp [hconcept])]
    exact .inr ⟨p.conceptId, hfails, record_tables_of_not_has_concept hconcept'⟩

theorem endsAlike_of_allowed (h : (s.restamp times).Kept) {ch : StoreChange}
    (hch : ch.Allowed s) : EndsAlike times s ch := by
  cases ch with
  | insertConcept c => exact endsAlike_insertConcept h hch
  | insertPhrasing p => exact endsAlike_insertPhrasing h hch
  | setCanonical id o clock => exact endsAlike_setCanonical h hch
  | archivePhrasing id now => exact endsAlike_archivePhrasing h hch
  | record p => exact endsAlike_record h hch

theorem EndsAlike.outcome {ch : StoreChange} (h : EndsAlike times s ch) :
    ∃ r, (r = .ok () ∨ ∃ id, r = .error (.notFound id)) ∧
      (ch.apply s).map (fun _ => ()) = r ∧
      (ch.apply (s.restamp times).tables).map (fun _ => ()) = r := by
  obtain ⟨s', hs, -, hdb⟩ | ⟨id, hs, hdb⟩ := h
  · exact ⟨.ok (), .inl rfl, by rw [hs]; rfl, by rw [hdb]; rfl⟩
  · exact ⟨.error (.notFound id), .inr ⟨id, rfl⟩, by rw [hs]; rfl, by rw [hdb]; rfl⟩

theorem EndsAlike.after {ch : StoreChange} (h : EndsAlike times s ch)
    (hkept : (s.restamp times).Kept) :
    ∃ times', ((ch.after s).restamp times').Kept ∧
      ch.after (s.restamp times).tables = ((ch.after s).restamp times').tables ∧
      ∀ chs, StoreChange.wallTimesAfter times s (ch :: chs) =
        StoreChange.wallTimesAfter times' (ch.after s) chs := by
  obtain ⟨s', hs, hkept', hdb⟩ | ⟨id, hs, hdb⟩ := h
  · have hafter : ch.after s = s' := by rw [StoreChange.after, hs]
    rw [hafter]
    exact ⟨_, hkept', by rw [StoreChange.after, hdb],
      fun chs => by rw [StoreChange.wallTimesAfter, hs]⟩
  · have hafter : ch.after s = s := by rw [StoreChange.after, hs]
    rw [hafter]
    exact ⟨_, hkept, by rw [StoreChange.after, hdb],
      fun chs => by rw [StoreChange.wallTimesAfter, hs]⟩

/-! ## Some changes -/

theorem storesAgree_of_admissible_tables (h : (s.restamp times).Kept) (chs : List StoreChange)
    (hchs : StoreChange.Admissible s chs) :
    StoreChange.outcomes (s.restamp times).tables chs = StoreChange.outcomes s chs ∧
    (∀ r ∈ StoreChange.outcomes s chs, r = .ok () ∨ ∃ id, r = .error (.notFound id)) ∧
    StoresAgree (StoreChange.wallTimesAfter times s chs) (StoreChange.run s chs)
      (StoreChange.run (s.restamp times).tables chs) := by
  -- The database stays the tables of the volatile store with some times of change.
  induction chs generalizing s times with
  | nil => exact ⟨rfl, by simp [StoreChange.outcomes], storesAgree_tables h⟩
  | cons ch chs ih =>
    obtain ⟨hch, hchs⟩ := hchs
    have hends := endsAlike_of_allowed h hch
    obtain ⟨r, hr, hs, hdb⟩ := hends.outcome
    obtain ⟨times', hkept, hafter, htimes⟩ := hends.after h
    obtain ⟨houtcomes, hresults, hagree⟩ := ih hkept hchs
    refine ⟨?_, ?_, ?_⟩
    · rw [StoreChange.outcomes, StoreChange.outcomes, hs, hdb, hafter, houtcomes]
    · rw [StoreChange.outcomes, hs, List.forall_mem_cons]
      exact ⟨hr, hresults⟩
    · show StoresAgree _ (StoreChange.run (ch.after s) chs)
        (StoreChange.run (ch.after (s.restamp times).tables) chs)
      rw [hafter, htimes]
      exact hagree

end VolatileStore

/-- After the same changes, each of them allowed when its turn comes, both stores have ended every
    change in the same way, with no other failure than a record that is not there, and answer every
    question alike. -/
theorem storesAgree_of_admissible {chs : List StoreChange}
    (h : StoreChange.Admissible VolatileStore.empty chs) :
    StoreChange.outcomes DatabaseStore.empty chs = StoreChange.outcomes VolatileStore.empty chs ∧
    (∀ r ∈ StoreChange.outcomes VolatileStore.empty chs,
      r = .ok () ∨ ∃ id, r = .error (.notFound id)) ∧
    StoresAgree (StoreChange.wallTimesAfter (fun _ => none) VolatileStore.empty chs)
      (StoreChange.run VolatileStore.empty chs) (StoreChange.run DatabaseStore.empty chs) := by
  have hempty : (VolatileStore.empty.restamp fun _ => none).Kept := VolatileStore.kept_empty
  exact VolatileStore.storesAgree_of_admissible_tables hempty chs h

namespace StoreChange

/-- A concept and its phrasing are inserted, the concept is pointed at it, another concept is not
    there to be pointed at anything, an answer is recorded, and the phrasing is archived twice. -/
def sample : List StoreChange := [
  .insertConcept (.create "c" "title" (.fresh .epoch) .epoch),
  .insertPhrasing (.create "p" "c" "question" "answer" .epoch),
  .setCanonical "c" (some "p") .epoch,
  .setCanonical "d" none .epoch,
  .record {
    conceptId := "c", memory := .fresh .epoch, phrasingId := "p", attemptCount := 1,
    lastAttemptedAt := .epoch,
    interaction := {
      id := "i", conceptId := "c", phrasingId := "p", userAnswer := "answer", isCorrect := true,
      elapsedMs := 5, sessionId := none, attemptedAt := .epoch } },
  .archivePhrasing "p" .epoch,
  .archivePhrasing "p" .epoch]

end StoreChange

theorem storesAgree_of_sample :
    StoreChange.Admissible VolatileStore.empty StoreChange.sample ∧
    StoreChange.outcomes DatabaseStore.empty StoreChange.sample =
      [.ok (), .ok (), .ok (), .error (.notFound "d"), .ok (), .ok (), .error (.notFound "p")] ∧
    StoresAgree (StoreChange.wallTimesAfter (fun _ => none) VolatileStore.empty StoreChange.sample)
      (StoreChange.run VolatileStore.empty StoreChange.sample)
      (StoreChange.run DatabaseStore.empty StoreChange.sample) := by
  have hmicro : Instant.epoch.IsMicro := by decide
  have hmemory := MemoryState.within_fresh hmicro
  have hadmissible : StoreChange.Admissible VolatileStore.empty StoreChange.sample :=
    ⟨⟨by decide, Concept.within_create "c" "title" hmemory hmicro⟩,
      ⟨by decide, by decide, Phrasing.within_create "p" "c" "question" "answer" hmicro⟩,
      hmicro.1, hmicro.1,
      ⟨⟨hmemory, hmicro, hmicro⟩, by decide, by decide, fun _ _ => ⟨by decide, by decide⟩⟩,
      hmicro, hmicro, trivial⟩
  obtain ⟨houtcomes, -, hagree⟩ := storesAgree_of_admissible hadmissible
  exact ⟨hadmissible, houtcomes.trans rfl, hagree⟩

end SpacedReview
