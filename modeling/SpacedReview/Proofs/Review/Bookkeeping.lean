import SpacedReview.Proofs.Retention.Delays
import SpacedReview.Proofs.Review.Books
import SpacedReview.Proofs.Review.Overlap
import SpacedReview.Proofs.Store.Agreement

/-!
# Bookkeeping

Whatever is called of a store that starts empty, and whichever of the calls fail, the store keeps
books: the counters and times of its concepts and phrasings are those of the interactions in its
log, and the log has one interaction for each submission that was taken.

## Main definitions

- `ReviewCall` — a call of a store or of a review over it, and `ReviewCall.run`
- `ReviewCall.Allowed`, `ReviewCall.Timely` — what is given to a call
- `ReviewCall.taken` — the submissions that were taken
- `KeptInStep` — records, log and overview of a store are in step

## Main statements

- `keptInStep_of_allowed` — both stores after any calls
-/

namespace SpacedReview

/-! ## Submissions -/

namespace SubmitCall

variable {σ : Type} [ReviewStore σ] {call : SubmitCall} {store : σ}

/-- The store after the submission, and how it ended. -/
def run (call : SubmitCall) (store : σ) : σ × Except SubmitError SubmitOutcome :=
  submit call.parameters.engine store call.request call.now call.interactionId

/-- A submission that is taken has looked up a concept and a phrasing, and has recorded what was
    planned for them. -/
inductive Ends (call : SubmitCall) (store : σ) : σ × Except SubmitError SubmitOutcome → Prop where
  | failed (err : SubmitError) : Ends call store (store, .error err)
  | taken {c : Concept} {p : Phrasing} {patch : ReviewPatch} {outcome : SubmitOutcome} {next : σ} :
      ReviewStore.concept? store call.request.conceptId = .ok (some c) →
      ReviewStore.phrasing? store call.request.phrasingId = .ok (some p) →
      planReview call.parameters.engine call.request call.now call.interactionId c p =
        .ok (patch, outcome) →
      ReviewStore.record store patch = .ok next → Ends call store (next, .ok outcome)

theorem ends_run (call : SubmitCall) (store : σ) : call.Ends store (call.run store) := by
  rcases hrun : call.run store with ⟨next, err | outcome⟩
  · rw [eq_of_submit_error hrun]
    exact .failed err
  · obtain ⟨c, p, patch, hc, hp, hplan, hrecord⟩ := submit_eq_ok.1 hrun
    exact .taken hc hp hplan hrecord

end SubmitCall

/-! ## Calls -/

/-- A call of a store, or of a review over it. -/
inductive ReviewCall where
  | change (ch : StoreChange)
  | ask (e : Engine) (now : Instant) (putOff : List String)
  | submit (call : SubmitCall)

namespace ReviewCall

section Run

variable {σ : Type} [ReviewStore σ] [Catalogued σ]

/-- The store after the call. Asking for a question changes nothing, and neither does a call that
    fails. -/
def after (store : σ) : ReviewCall → σ
  | change ch => ch.after store
  | ask _ _ _ => store
  | submit call => (call.run store).1

/-- The store after some calls. -/
def run (store : σ) (calls : List ReviewCall) : σ :=
  calls.foldl after store

/-- The submission that the call is, if it is taken. -/
def taken? (store : σ) : ReviewCall → Option SubmitCall
  | submit call =>
    match (call.run store).2 with
    | .ok _ => some call
    | .error _ => none
  | _ => none

/-- The submissions among some calls that are taken. -/
def taken (store : σ) : List ReviewCall → List SubmitCall
  | [] => []
  | call :: calls => (call.taken? store).toList ++ taken (call.after store) calls

/-- Something holds of each of some calls and the store that it is made of. -/
def Throughout (P : σ → ReviewCall → Prop) (store : σ) : List ReviewCall → Prop
  | [] => True
  | call :: calls => P store call ∧ Throughout P (call.after store) calls

/-- Every call can be made, except that answers are only written by submissions, that new records
    have identifiers that are not used yet, and that they were never asked. If `blank` holds, then
    new phrasings have no last attempt either. -/
def Allowed (blank : Prop) (store : σ) : ReviewCall → Prop
  | change (.insertConcept c) =>
    ReviewStore.concept? store c.id = .ok none ∧ ∃ now, c.memory = .fresh now
  | change (.insertPhrasing p) =>
    ReviewStore.phrasing? store p.id = .ok none ∧ p.attemptCount = 0 ∧
      (blank → p.lastAttemptedAt = none)
  | change (.record _) => False
  | _ => True

/-- The times that are given and the next review that is computed are in the years 0 to 9999. -/
def Timely (store : σ) : ReviewCall → Prop
  | change ch => ch.Within Instant.HasPlainYear fun _ => True
  | ask _ now _ => now.HasPlainYear
  | submit call => call.now.HasPlainYear ∧
    ∀ outcome, (call.run store).2 = .ok outcome → outcome.nextReview.HasPlainYear

/-- No concept is answered so often that its counter comes back to zero. -/
def InCount (store : σ) (calls : List ReviewCall) : Prop :=
  ∀ id, (taken store calls).countP (·.request.conceptId = id) < UInt32.size

theorem length_taken_le (store : σ) (calls : List ReviewCall) :
    (taken store calls).length ≤ calls.length := by
  induction calls generalizing store with
  | nil => exact Nat.le_refl 0
  | cons call calls ih =>
    have hrest := ih (call.after store)
    rw [taken, List.length_append, List.length_cons]
    cases call.taken? store <;> simp <;> omega

end Run

end ReviewCall

/-! ## One call -/

/-- What is planned for an answer has times in the years 0 to 9999 if the answer and the next review
    have. -/
theorem ReviewPatch.within_iff_of_planReview {p : Parameters} {r : SubmitRequest} {now : Instant}
    {id : String} {c : Concept} {q : Phrasing} {patch : ReviewPatch} {outcome : SubmitOutcome}
    (hc : c.id = r.conceptId) (hq : q.id = r.phrasingId)
    (hplan : planReview p.engine r now id c q = .ok (patch, outcome)) :
    (patch.Within Instant.HasPlainYear fun _ => True) ↔
      now.HasPlainYear ∧ outcome.nextReview.HasPlainYear := by
  obtain ⟨hanswers, hinteraction, hlast, hnext⟩ := answers_of_planReview hc hq hplan
  have hattempted : patch.interaction.attemptedAt = now := by
    rw [hinteraction]
    rfl
  constructor
  · intro h
    exact ⟨hlast ▸ h.lastAttemptedAt, hnext ▸ h.memory.nextReview⟩
  · rintro ⟨hnow, hdue⟩
    refine ⟨⟨trivial, trivial, fun t ht => ?_, hnext ▸ hdue⟩, hlast ▸ hnow, hattempted ▸ hnow⟩
    rw [hanswers.memory.lastReview, hattempted] at ht
    rw [← Option.some.inj ht]
    exact hnow

theorem MemoryState.kept_fresh (now : Instant) : (fresh now).kept = fresh now.cut := by
  have hzero : Binary64.oneZero 0.0 = 0.0 := Binary64.oneZero_of_isPlain (by decide)
  simp only [kept, fresh, hzero, Option.map_none]

/-- The records after a call: nothing was changed, or one entry was made, which logs the
    submission that the call was. -/
def VolatileStore.Posted (blank : Prop) (s s' : VolatileStore) (is : List Interaction) : Prop :=
  (s' = s ∨ s.Entry blank s') ∧ s'.log = s.log ++ is

namespace VolatileStore

variable {blank : Prop} {s : VolatileStore}

theorem posted_self (blank : Prop) (s : VolatileStore) : s.Posted blank s [] :=
  ⟨.inl rfl, (List.append_nil _).symm⟩

theorem not_has_concept_of_eq_none {id : String} (h : ReviewStore.concept? s id = .ok none) :
    ¬ Keyed.has Concept.id s.concepts id := by
  have hfind : Keyed.find? Concept.id s.concepts id = none := Except.ok.inj h
  simp [Keyed.has_eq_isSome_find?, hfind]

theorem not_has_phrasing_of_eq_none {id : String} (h : ReviewStore.phrasing? s id = .ok none) :
    ¬ Keyed.has Phrasing.id s.phrasings id := by
  have hfind : Keyed.find? Phrasing.id s.phrasings id = none := Except.ok.inj h
  simp [Keyed.has_eq_isSome_find?, hfind]

theorem posted_insertConcept {c : Concept} {now : Instant}
    (hnew : ¬ Keyed.has Concept.id s.concepts c.id) (hc : c.memory = .fresh now) :
    s.Posted blank (s.insertConcept c) [] := by
  have hentry : s.Entry blank _ := .concept hnew hc
  rw [insertConcept, Keyed.put_of_not_has _ hnew]
  exact ⟨.inr hentry, (List.append_nil _).symm⟩

theorem posted_insertPhrasing {p : Phrasing} (hnew : ¬ Keyed.has Phrasing.id s.phrasings p.id)
    (hconcept : Keyed.has Concept.id s.concepts p.conceptId) (hcount : p.attemptCount = 0)
    (hlast : blank → p.lastAttemptedAt = none) :
    s.Posted blank { s with phrasings := Keyed.put Phrasing.id s.phrasings p } [] := by
  have hentry : s.Entry blank _ := .phrasing hnew hconcept hcount hlast
  rw [Keyed.put_of_not_has _ hnew]
  exact ⟨.inr hentry, (List.append_nil _).symm⟩

theorem posted_archived (blank : Prop) (s : VolatileStore) (id : String) (now : Instant) :
    s.Posted blank { s with phrasings := Keyed.change Phrasing.id s.phrasings id fun q =>
      { q with archivedAt := some now } } [] :=
  ⟨.inr (.archived id fun _ => ⟨rfl, rfl, rfl, rfl⟩), (List.append_nil _).symm⟩

/-- What is planned for records of the store is an entry, and so is what a database keeps of it. -/
theorem posted_of_planReview {call : SubmitCall} {c : Concept} {p : Phrasing} {patch : ReviewPatch}
    {outcome : SubmitOutcome}
    (hc : ReviewStore.concept? s call.request.conceptId = .ok (some c))
    (hp : ReviewStore.phrasing? s call.request.phrasingId = .ok (some p))
    (hplan : planReview call.parameters.engine call.request call.now call.interactionId c p =
      .ok (patch, outcome)) :
    s.Posted blank (s.recorded patch) [call.interaction] ∧
      s.Posted blank (s.recorded patch.kept) [call.interaction.kept] := by
  have hc : Keyed.find? Concept.id s.concepts call.request.conceptId = some c := Except.ok.inj hc
  have hp : Keyed.find? Phrasing.id s.phrasings call.request.phrasingId = some p :=
    Except.ok.inj hp
  have hmem := Keyed.mem_of_find? _ hc
  have hmem' := Keyed.mem_of_find? _ hp
  obtain ⟨hanswers, hinteraction, -, -⟩ :=
    answers_of_planReview (Keyed.key_of_find? _ hc) (Keyed.key_of_find? _ hp) hplan
  refine ⟨⟨.inr (.answer hmem hmem' hanswers), ?_⟩, ⟨.inr (.answer hmem hmem' hanswers.kept), ?_⟩⟩
  · rw [recorded, hinteraction]
    rfl
  · show s.log ++ [patch.interaction.kept] = _
    rw [hinteraction]
    rfl

theorem posted_of_apply {ch : StoreChange} (hch : (ReviewCall.change ch).Allowed blank s)
    {s' : VolatileStore} (h : ch.apply s = .ok s') : s.Posted blank s' [] := by
  cases ch with
  | insertConcept c =>
    obtain ⟨hnew, now, hc⟩ := hch
    obtain rfl : s.insertConcept c = s' := Except.ok.inj h
    exact posted_insertConcept (not_has_concept_of_eq_none hnew) hc
  | insertPhrasing p =>
    obtain ⟨hnew, hcount, hlast⟩ := hch
    obtain ⟨hconcept, rfl⟩ := insertPhrasing_eq_ok.1 h
    exact posted_insertPhrasing (not_has_phrasing_of_eq_none hnew) hconcept hcount hlast
  | setCanonical id o clock =>
    obtain ⟨-, rfl⟩ := setCanonical_eq_ok.1 h
    exact ⟨.inr (.pointed id fun _ => ⟨rfl, rfl⟩), (List.append_nil _).symm⟩
  | archivePhrasing id now =>
    obtain ⟨p, -, -, rfl⟩ := archivePhrasing_eq_ok.1 h
    exact posted_archived blank s id now
  | record p => exact hch.elim

theorem posted_filledBy (hkept : s.Kept) {ch : StoreChange}
    (hch : (ReviewCall.change ch).Allowed blank s.tables) {db : DatabaseStore}
    (h : ch.apply s.tables = .ok db) : s.Posted blank (s.filledBy ch) [] := by
  cases ch with
  | insertConcept c =>
    obtain ⟨hnew, now, hc⟩ := hch
    rw [concept?_tables hkept] at hnew
    have hmemory : c.kept.memory = .fresh now.cut := by
      rw [Concept.kept, hc, MemoryState.kept_fresh]
    exact posted_insertConcept (not_has_concept_of_eq_none hnew) hmemory
  | insertPhrasing p =>
    obtain ⟨hnew, hcount, hlast⟩ := hch
    rw [phrasing?_tables hkept] at hnew
    obtain ⟨-, hconcept, -⟩ := insertPhrasing_tables_eq_ok.1 h
    refine posted_insertPhrasing (p := p.kept) (not_has_phrasing_of_eq_none hnew) hconcept hcount
      fun hblank => ?_
    show p.lastAttemptedAt.map Instant.cut = none
    rw [hlast hblank]
    rfl
  | setCanonical id o clock =>
    exact ⟨.inr (.pointed id fun _ => ⟨rfl, rfl⟩), (List.append_nil _).symm⟩
  | archivePhrasing id now => exact posted_archived blank s id now.cut
  | record p => exact hch.elim

theorem posted_after {call : ReviewCall} (hcall : call.Allowed blank s) :
    s.Posted blank (call.after s) ((call.taken? s).toList.map SubmitCall.interaction) := by
  cases call with
  | ask e now putOff => exact posted_self blank s
  | submit call =>
    have hends := call.ends_run s
    simp only [ReviewCall.after, ReviewCall.taken?]
    generalize call.run s = result at hends
    cases hends with
    | failed err => exact posted_self blank s
    | taken hc hp hplan hrecord =>
      obtain ⟨-, -, rfl⟩ := record_eq_ok.1 hrecord
      exact (posted_of_planReview hc hp hplan).1
  | change ch =>
    simp only [ReviewCall.after, StoreChange.after]
    cases happly : ch.apply s with
    | error err => exact posted_self blank s
    | ok s' => exact posted_of_apply hcall happly

/-- The records of a database after a call. -/
theorem exists_posted_after (hkept : s.Kept) (hdistinct : s.Distinct) {call : ReviewCall}
    (hcall : call.Allowed blank s.tables) (htime : call.Timely s.tables) :
    ∃ s' : VolatileStore, (s'.tables = call.after s.tables ∧ s'.Kept ∧ s'.Distinct) ∧
      s.Posted blank s' ((call.taken? s.tables).toList.map (·.interaction.kept)) := by
  cases call with
  | ask e now putOff => exact ⟨s, ⟨rfl, hkept, hdistinct⟩, posted_self blank s⟩
  | submit call =>
    obtain ⟨hnow, hnext⟩ := htime
    have hends := call.ends_run s.tables
    simp only [ReviewCall.after, ReviewCall.taken?]
    generalize call.run s.tables = result at hends hnext
    cases hends with
    | failed err => exact ⟨s, ⟨rfl, hkept, hdistinct⟩, posted_self blank s⟩
    | @taken c p patch outcome db hc hp hplan hrecord =>
      rw [concept?_tables hkept] at hc
      rw [phrasing?_tables hkept] at hp
      have hwithin : (StoreChange.record patch).Within Instant.HasPlainYear fun _ => True :=
        (ReviewPatch.within_iff_of_planReview (Keyed.key_of_find? _ (Except.ok.inj hc))
          (Keyed.key_of_find? _ (Except.ok.inj hp)) hplan).2 ⟨hnow, hnext outcome rfl⟩
      obtain ⟨hkept', hdistinct', htables⟩ := tables_filledBy hkept hdistinct hwithin hrecord
      exact ⟨_, ⟨htables, hkept', hdistinct'⟩, (posted_of_planReview hc hp hplan).2⟩
  | change ch =>
    simp only [ReviewCall.after, StoreChange.after]
    cases happly : ch.apply s.tables with
    | error err => exact ⟨s, ⟨rfl, hkept, hdistinct⟩, posted_self blank s⟩
    | ok db =>
      obtain ⟨hkept', hdistinct', htables⟩ := tables_filledBy hkept hdistinct htime happly
      exact ⟨_, ⟨htables, hkept', hdistinct'⟩, posted_filledBy hkept hcall happly⟩

end VolatileStore

/-! ## Some calls -/

section Run

variable {σ : Type} [ReviewStore σ] [Catalogued σ] (Holds : σ → VolatileStore → Prop)
  (keep : Interaction → Interaction) {blank : Prop} {P : σ → ReviewCall → Prop} {store : σ}
  {s : VolatileStore}

/-- If every call is posted in the records that the store holds, then so are some calls. -/
theorem ReviewCall.exists_books_of_run
    (hstep : ∀ {store s call}, Holds store s → P store call → ∃ s', Holds (call.after store) s' ∧
      s.Posted blank s' ((call.taken? store).toList.map fun c => keep c.interaction))
    (hs : Holds store s) (hbooks : s.Books blank) {calls : List ReviewCall}
    (hcalls : Throughout P store calls) :
    ∃ s', Holds (run store calls) s' ∧ s'.Books blank ∧
      s'.log = s.log ++ (taken store calls).map fun c => keep c.interaction := by
  induction calls generalizing store s with
  | nil => exact ⟨s, hs, hbooks, (List.append_nil _).symm⟩
  | cons call calls ih =>
    obtain ⟨hcall, hcalls⟩ := hcalls
    obtain ⟨s', hs', hentry, hlog⟩ := hstep hs hcall
    have hbooks' : s'.Books blank := by
      rcases hentry with rfl | hentry
      · exact hbooks
      · exact hbooks.entry hentry
    obtain ⟨final, hfinal, hbooksFinal, hlogFinal⟩ := ih hs' hbooks' hcalls
    refine ⟨final, hfinal, hbooksFinal, ?_⟩
    rw [hlogFinal, hlog, taken, List.map_append, List.append_assoc]

end Run

/-- The records of a store are in step with its log, the log has what was written, and the overview
    counts both, at all times at which the store can be asked. -/
structure KeptInStep {σ : Type} [ReviewStore σ] (blank : Prop) (legible : Instant → Prop)
    (store : σ) (s : VolatileStore) (written : List Interaction) : Prop where
  inStep : s.InStep blank
  log : s.log = written
  overview : ∀ now, legible now → ∃ stats due, ReviewStore.stats store now = .ok stats ∧
    ReviewStore.due store now none = .ok due ∧
    stats.totalInteractions = UInt64.ofNat written.length ∧
    stats.newConcepts + stats.learning + stats.review + stats.relearning = stats.totalConcepts ∧
    stats.dueNow = UInt64.ofNat due.length

namespace VolatileStore

theorem length_interactionsWith {s : VolatileStore} (keep : Interaction → Interaction)
    (hkeep : ∀ i, (keep i).conceptId = i.conceptId) {calls : List SubmitCall}
    (hlog : s.log = calls.map fun c => keep c.interaction) (id : String) :
    (s.interactionsWith id).length = calls.countP (·.request.conceptId = id) := by
  rw [interactionsWith, hlog, ← List.countP_eq_length_filter, List.countP_map]
  refine List.countP_congr fun c _ => ?_
  show decide ((keep c.interaction).conceptId = id) = true ↔ _
  rw [hkeep]
  rfl

theorem Books.keptInStep {σ : Type} [ReviewStore σ] {blank : Prop} {legible : Instant → Prop}
    {store : σ} {s : VolatileStore} (h : s.Books blank)
    (hcount : ∀ id, (s.interactionsWith id).length < UInt32.size)
    (hstats : ∀ now, legible now → ReviewStore.stats store now = ReviewStore.stats s now)
    (hdue : ∀ now, legible now → ReviewStore.due store now none = ReviewStore.due s now none) :
    KeptInStep blank legible store s s.log where
  inStep := h.inStep hcount
  log := rfl
  overview now hnow := by
    refine ⟨s.stats now, s.due now none, hstats now hnow, hdue now hnow, rfl, s.sum_countState, ?_⟩
    rw [length_due]
    rfl

end VolatileStore

/-- A store that starts empty keeps its records in step with its log through all calls, whichever of
    them fail: the log has the submissions that were taken, and the overview counts both. This holds
    of a volatile store, and of a database if all times are in the years 0 to 9999, as long as no
    counter of answers comes back to zero. -/
theorem keptInStep_of_allowed (blank : Prop) :
    (∀ calls, ReviewCall.Throughout (ReviewCall.Allowed blank) VolatileStore.empty calls →
      ReviewCall.InCount VolatileStore.empty calls →
      KeptInStep blank (fun _ => True) (ReviewCall.run VolatileStore.empty calls)
        (ReviewCall.run VolatileStore.empty calls)
        ((ReviewCall.taken VolatileStore.empty calls).map (·.interaction))) ∧
    ∀ calls, ReviewCall.Throughout (fun db call => call.Allowed blank db ∧ call.Timely db)
        DatabaseStore.empty calls →
      ReviewCall.InCount DatabaseStore.empty calls →
      ∃ s, (ReviewCall.run DatabaseStore.empty calls).contents = .ok s ∧
        KeptInStep blank Instant.HasPlainYear (ReviewCall.run DatabaseStore.empty calls) s
          ((ReviewCall.taken DatabaseStore.empty calls).map (·.interaction.kept)) := by
  refine ⟨fun calls hcalls hcount => ?_, fun calls hcalls hcount => ?_⟩
  · have hstep {store s : VolatileStore} {call : ReviewCall} (hs : store = s)
        (hcall : call.Allowed blank store) : ∃ s', call.after store = s' ∧
          s.Posted blank s' ((call.taken? store).toList.map (·.interaction)) :=
      ⟨_, rfl, hs ▸ VolatileStore.posted_after hcall⟩
    obtain ⟨s, rfl, hbooks, hlog⟩ := ReviewCall.exists_books_of_run (fun store s => store = s)
      (fun i => i) hstep rfl (VolatileStore.books_empty blank) hcalls
    have hlog := hlog.trans (List.nil_append _)
    rw [← hlog]
    refine hbooks.keptInStep (fun id => ?_) (fun _ _ => rfl) fun _ _ => rfl
    rw [VolatileStore.length_interactionsWith (fun i => i) (fun _ => rfl) hlog]
    exact hcount id
  · have hstep {db : DatabaseStore} {s : VolatileStore} {call : ReviewCall}
        (hs : s.tables = db ∧ s.Kept ∧ s.Distinct)
        (hcall : call.Allowed blank db ∧ call.Timely db) :
        ∃ s', (s'.tables = call.after db ∧ s'.Kept ∧ s'.Distinct) ∧
          s.Posted blank s' ((call.taken? db).toList.map (·.interaction.kept)) := by
      obtain ⟨rfl, hkept, hdistinct⟩ := hs
      exact VolatileStore.exists_posted_after hkept hdistinct hcall.1 hcall.2
    have hempty : VolatileStore.empty.tables = DatabaseStore.empty ∧
        VolatileStore.empty.Kept ∧ VolatileStore.empty.Distinct :=
      ⟨rfl, VolatileStore.kept_empty, VolatileStore.distinct_empty⟩
    obtain ⟨s, ⟨htables, hkept, -⟩, hbooks, hlog⟩ := ReviewCall.exists_books_of_run
      (fun db s => s.tables = db ∧ s.Kept ∧ s.Distinct) Interaction.kept hstep hempty
      (VolatileStore.books_empty blank) hcalls
    have hlog := hlog.trans (List.nil_append _)
    rw [← htables, ← hlog]
    refine ⟨s, DatabaseStore.contents_tables hkept, hbooks.keptInStep (fun id => ?_)
      (fun now hnow => VolatileStore.stats_tables hkept hnow)
      fun now hnow => VolatileStore.due_tables hkept hnow none⟩
    rw [VolatileStore.length_interactionsWith Interaction.kept (fun _ => rfl) hlog]
    exact hcount id

/-! ## Two answers and a refused one -/

/-- The next review of an answer lies within a hundred years if no step is longer than a day and no
    interval longer than a hundred years. -/
theorem SubmitCall.second_bounds {σ : Type} [ReviewStore σ] {call : SubmitCall}
    (hsteps : ∀ minutes ∈ call.parameters.learningSteps ++ call.parameters.relearningSteps,
      minutes ≤ 1440)
    (hinterval : call.parameters.maximumInterval ≤ 36500) {store : σ} {outcome : SubmitOutcome}
    (h : (call.run store).2 = .ok outcome) :
    call.now.second ≤ outcome.nextReview.second ∧
      outcome.nextReview.second ≤ call.now.second + 3153600000 := by
  have hends := call.ends_run store
  generalize call.run store = result at hends h
  cases hends with
  | failed => cases h
  | @taken c p patch planned next hc hp hplan =>
    obtain rfl := Except.ok.inj h
    simp only [planReview, ite_throw_eq_ok, bind_eq_ok, mapError_eq_ok, pure, Except.pure,
      Except.ok.injEq, Prod.mk.injEq] at hplan
    obtain ⟨-, -, result, hresult, -, rfl⟩ := hplan
    obtain ⟨m, hm, rfl⟩ := Engine.schedule_eq_ok.1 hresult
    obtain ⟨due, hdue, rfl⟩ := Parameters.update_eq_ok.1 hm
    have hdelay := Parameters.transition_le hsteps hinterval c.memory.state
      (.ofCorrect call.request.isCorrect)
      (call.parameters.nextStability c.memory (.ofCorrect call.request.isCorrect) call.now)
    have hsecond := Instant.second_of_after? hdue
    show call.now.second ≤ due.second ∧ due.second ≤ _
    omega

/-- An answer to a phrasing at the first instant of 1970. -/
def sampleAnswer (phrasingId : String) (isCorrect : Bool) : ReviewCall :=
  .submit {
    parameters := .standard
    request := {
      conceptId := "c", phrasingId, answer := "answer", isCorrect, elapsedMs := 5,
      sessionId := none }
    now := .epoch
    interactionId := phrasingId }

/-- A concept and two phrasings are inserted, both phrasings are answered, and the second one is
    archived and answered again. -/
def sampleCalls : List ReviewCall := [
  .change (.insertConcept (.create "c" "title" (.fresh .epoch) .epoch)),
  .change (.insertPhrasing (.create "p" "c" "question" "answer" .epoch)),
  .change (.insertPhrasing (.create "q" "c" "question" "answer" .epoch)),
  .change (.setCanonical "c" (some "p") .epoch),
  .ask Parameters.standard.engine .epoch [],
  sampleAnswer "p" true,
  sampleAnswer "q" false,
  .change (.archivePhrasing "q" .epoch),
  sampleAnswer "q" true]

theorem inCount_sampleCalls {σ : Type} [ReviewStore σ] [Catalogued σ] (store : σ) :
    ReviewCall.InCount store sampleCalls := by
  intro id
  have hlength := ReviewCall.length_taken_le store sampleCalls
  have hle := List.countP_le_length (p := fun c : SubmitCall => c.request.conceptId = id)
    (l := ReviewCall.taken store sampleCalls)
  have hsample : sampleCalls.length = 9 := rfl
  simp only [UInt32.size]
  omega

theorem timely_sampleAnswer (phrasingId : String) (isCorrect : Bool) (db : DatabaseStore) :
    (sampleAnswer phrasingId isCorrect).Timely db := by
  let last : Instant := ⟨3153600000, 0, by decide, by decide, by decide, by decide⟩
  have hepoch : Instant.epoch.HasPlainYear := by decide
  have hlast : last.HasPlainYear := by decide
  refine ⟨hepoch, fun outcome h => ?_⟩
  obtain ⟨hle, hge⟩ := SubmitCall.second_bounds (by simp [Parameters.standard])
    (UInt32.le_refl _) h
  exact hepoch.of_between hlast hle hge

/-- In a volatile store the first two answers are taken and the third one is refused. In a database
    records and log are in step as well. -/
theorem keptInStep_of_sampleCalls :
    KeptInStep True (fun _ => True) (ReviewCall.run VolatileStore.empty sampleCalls)
      (ReviewCall.run VolatileStore.empty sampleCalls)
      ((ReviewCall.taken VolatileStore.empty sampleCalls).map (·.interaction)) ∧
    (ReviewCall.taken VolatileStore.empty sampleCalls).map (·.request.phrasingId) = ["p", "q"] ∧
    ∃ s, (ReviewCall.run DatabaseStore.empty sampleCalls).contents = .ok s ∧
      KeptInStep True Instant.HasPlainYear (ReviewCall.run DatabaseStore.empty sampleCalls) s
        ((ReviewCall.taken DatabaseStore.empty sampleCalls).map (·.interaction.kept)) := by
  have hepoch : Instant.epoch.HasPlainYear := by decide
  obtain ⟨hvolatile, hdatabase⟩ := keptInStep_of_allowed True
  refine ⟨hvolatile _ ?_ (inCount_sampleCalls _), rfl, hdatabase _ ?_ (inCount_sampleCalls _)⟩
  · exact ⟨⟨rfl, _, rfl⟩, ⟨rfl, rfl, fun _ => rfl⟩, ⟨rfl, rfl, fun _ => rfl⟩, trivial, trivial,
      trivial, trivial, trivial, trivial, trivial⟩
  · have hconcept : (StoreChange.insertConcept (.create "c" "title" (.fresh .epoch) .epoch)).Within
        Instant.HasPlainYear fun _ => True :=
      ⟨⟨trivial, trivial, by simp [Concept.create, MemoryState.fresh], hepoch⟩, hepoch, hepoch⟩
    have hphrasing (id : String) : (StoreChange.insertPhrasing (.create id "c" "question" "answer"
        .epoch)).Within Instant.HasPlainYear fun _ => True :=
      ⟨by simp [Phrasing.create], hepoch, by simp [Phrasing.create], by simp [Phrasing.create]⟩
    exact ⟨⟨⟨rfl, _, rfl⟩, hconcept⟩, ⟨⟨rfl, rfl, fun _ => rfl⟩, hphrasing "p"⟩,
      ⟨⟨rfl, rfl, fun _ => rfl⟩, hphrasing "q"⟩, ⟨trivial, hepoch⟩, ⟨trivial, hepoch⟩,
      ⟨trivial, timely_sampleAnswer ..⟩, ⟨trivial, timely_sampleAnswer ..⟩, ⟨trivial, hepoch⟩,
      ⟨trivial, timely_sampleAnswer ..⟩, trivial⟩

/-! ## A claimed attempt -/

/-- A phrasing that nobody has answered is inserted with the time of a last attempt. -/
def claimedAttempt : List ReviewCall := [
  .change (.insertConcept (.create "c" "title" (.fresh .epoch) .epoch)),
  .change (.insertPhrasing { Phrasing.create "p" "c" "question" "answer" .epoch with
    lastAttemptedAt := some .epoch })]

/-- A last attempt that a phrasing is inserted with stays in the store, though the log has no
    interaction that it could be the time of. -/
theorem not_keptInStep_of_claimedAttempt :
    ReviewCall.Throughout (ReviewCall.Allowed False) VolatileStore.empty claimedAttempt ∧
    ReviewCall.InCount VolatileStore.empty claimedAttempt ∧
    ¬ KeptInStep True (fun _ => True) (ReviewCall.run VolatileStore.empty claimedAttempt)
      (ReviewCall.run VolatileStore.empty claimedAttempt)
      ((ReviewCall.taken VolatileStore.empty claimedAttempt).map (·.interaction)) := by
  refine ⟨⟨⟨rfl, _, rfl⟩, ⟨rfl, rfl, False.elim⟩, trivial⟩, fun id => ?_, fun h => ?_⟩
  · show 0 < UInt32.size
    decide
  · have hlast := h.inStep.lastAttemptedAt _ List.mem_cons_self (.inr trivial)
    cases hlast

end SpacedReview
