import SpacedReview.Proofs.Decimal.Truncation
import SpacedReview.Proofs.Review.Choice
import SpacedReview.Proofs.Review.Outcome

/-!
# The policy of choosing a phrasing

Whatever the list, the options and the source of random numbers are, `select` takes one of the
phrasings that the options allow: the first that is preferred, or the first of those that are seen
least, or the one that a random number stands for. Phrasings are told by their places in the list,
so that the same phrasing may occur in it more than once.

## Main definitions

- `SelectionOptions.Allows` — the phrasings that can be chosen
- `Drawn` — the place that a random number stands for
- `Selected` — what is chosen, why, and what becomes of the source

## Main statements

- `selected_select` — the choice of `select`
-/

namespace SpacedReview

/-! ## Places in a filtered list -/

section Places

variable {α : Type} (f : α → Bool) {l : List α}

theorem mem_filter_zipIdx {x : α} {i : Nat} :
    (x, i) ∈ l.zipIdx.filter (fun y => f y.1) ↔ l[i]? = some x ∧ f x := by
  rw [List.mem_filter, List.mk_mem_zipIdx_iff_getElem?]

theorem pairwise_filter_zipIdx :
    (l.zipIdx.filter fun y => f y.1).Pairwise (·.2 < ·.2) := by
  have hplaces : (l.zipIdx.map (·.2)).Pairwise (· < ·) := by
    rw [List.zipIdx_map_snd]
    exact List.pairwise_lt_range'
  exact (List.pairwise_map.1 hplaces).filter _

theorem length_filter_zipIdx : (l.zipIdx.filter fun y => f y.1).length = l.countP f := by
  have hmap : l.countP f = (l.zipIdx.map (·.1)).countP f := by rw [List.zipIdx_map_fst]
  rw [hmap, List.countP_map, List.countP_eq_length_filter]
  rfl

/-- As many of a list pass the filter before a place as come before it in the filtered list. -/
theorem countP_take_of_getElem? {start k i : Nat} {x : α}
    (h : ((l.zipIdx start).filter fun y => f y.1)[k]? = some (x, i)) :
    (l.take (i - start)).countP f = k := by
  induction l generalizing start k with
  | nil => cases h
  | cons a l ih =>
    have htake : start + 1 ≤ i → (a :: l).take (i - start) = a :: l.take (i - (start + 1)) := by
      intro hle
      obtain ⟨d, rfl⟩ := Nat.exists_eq_add_of_le hle
      rw [Nat.add_sub_cancel_left, Nat.add_right_comm, Nat.add_assoc, Nat.add_sub_cancel_left,
        List.take_succ_cons]
    rw [List.zipIdx_cons, List.filter_cons] at h
    by_cases ha : f a
    · rw [if_pos ha] at h
      cases k with
      | zero =>
        obtain ⟨-, rfl⟩ := Prod.mk.inj (Option.some.inj h)
        rw [Nat.sub_self]
        rfl
      | succ k =>
        rw [List.getElem?_cons_succ] at h
        have hle := List.le_snd_of_mem_zipIdx (List.mem_of_mem_filter (List.mem_of_getElem? h))
        rw [htake hle, List.countP_cons_of_pos ha, ih h]
    · rw [if_neg ha] at h
      have hle := List.le_snd_of_mem_zipIdx (List.mem_of_mem_filter (List.mem_of_getElem? h))
      rw [htake hle, List.countP_cons_of_neg ha, ih h]

end Places

/-! ## The phrasings that can be chosen -/

namespace SelectionOptions

/-- The options allow a phrasing: it was neither archived nor deleted, and it is not the excluded
    one. -/
def Allows (o : SelectionOptions) (p : Phrasing) : Prop :=
  p.archivedAt = none ∧ p.deletedAt = none ∧ o.excludeId ≠ some p.id

instance (o : SelectionOptions) : DecidablePred o.Allows := fun _ =>
  inferInstanceAs (Decidable (_ ∧ _))

/-- A phrasing stands at a place of a list, and the options allow it. -/
def AllowsAt (o : SelectionOptions) (ps : List Phrasing) (place : Nat) (p : Phrasing) : Prop :=
  ps[place]? = some p ∧ o.Allows p

variable {o : SelectionOptions} {ps : List Phrasing} {p : Phrasing}

/-- The phrasings that the options allow, with their places. -/
def allowed (o : SelectionOptions) (ps : List Phrasing) : List (Phrasing × Nat) :=
  ps.zipIdx.filter fun x => decide (o.Allows x.1)

theorem isShowable_iff_allows : p.isShowable o.excludeId ↔ o.Allows p := by
  rw [Phrasing.isShowable, Bool.and_eq_true, Bool.not_eq_true', Phrasing.isRetired_eq_false,
    decide_eq_true_iff, and_assoc]
  rfl

theorem filter_isShowable :
    (ps.zipIdx.filter fun x => x.1.isShowable o.excludeId) = o.allowed ps := by
  refine List.filter_congr fun x _ => ?_
  rw [Bool.eq_iff_iff, isShowable_iff_allows, decide_eq_true_iff]

theorem mem_allowed {place : Nat} : (p, place) ∈ o.allowed ps ↔ o.AllowsAt ps place p := by
  rw [allowed, mem_filter_zipIdx fun q => decide (o.Allows q), decide_eq_true_iff]
  rfl

theorem exists_allowsAt (hp : p ∈ ps) (hallows : o.Allows p) : ∃ place, o.AllowsAt ps place p := by
  obtain ⟨place, hplace⟩ := List.mem_iff_getElem?.1 hp
  exact ⟨place, hplace, hallows⟩

theorem length_allowed : (o.allowed ps).length = ps.countP o.Allows :=
  length_filter_zipIdx fun q => decide (o.Allows q)

/-- What comes before an allowed phrasing has an earlier place. -/
theorem places_of_allowed {before after : List (Phrasing × Nat)} {x : Phrasing × Nat}
    (h : o.allowed ps = before ++ x :: after) :
    (∀ y ∈ before, y.2 < x.2) ∧ ∀ y ∈ after, x.2 < y.2 := by
  have hplaces : (o.allowed ps).Pairwise (·.2 < ·.2) :=
    pairwise_filter_zipIdx fun q => decide (o.Allows q)
  rw [h, List.pairwise_append] at hplaces
  obtain ⟨-, hafter, hbefore⟩ := hplaces
  exact ⟨fun y hy => hbefore y hy x List.mem_cons_self, (List.pairwise_cons.1 hafter).1⟩

/-- As many phrasings are allowed before a place as come before it among those that are allowed. -/
theorem countP_take_of_allowed {k : Nat} {x : Phrasing × Nat} (h : (o.allowed ps)[k]? = some x) :
    (ps.take x.2).countP o.Allows = k :=
  countP_take_of_getElem? (fun q => decide (o.Allows q)) h

end SelectionOptions

/-! ## The choice -/

/-- The place among `n` that a number drawn at random stands for: its product with `n`, rounded down
    and moved among the places that a word can hold. -/
structure Drawn (x : Float) (n place : Nat) : Prop where
  rounded : Binary64.RoundsDown (x * Float.ofNat n) (min (UInt64.size - 1) (n - 1)) place
  notANumber : x.isNaN → place = 0

theorem drawn_randomPlace (x : Float) (n : Nat) : Drawn x n (randomPlace x n) := by
  have hrounded := (Binary64.roundsDown_toUInt64_larger (x * Float.ofNat n)).min (n - 1)
  exact ⟨hrounded, fun hx => hrounded.eq_zero (Binary64.isNaN_mul hx _)⟩

theorem randomPlace_lt (x : Float) {n : Nat} (hn : 0 < n) : randomPlace x n < n := by
  have hle : randomPlace x n ≤ n - 1 := Nat.min_le_right _ _
  omega

section Selected

open SelectionOptions

variable {σ : Type} (draw : σ → Float × σ) (source : σ) (o : SelectionOptions) (ps : List Phrasing)

/-- What is chosen from a list of phrasings, and in which state the source of random numbers is
    left. Nothing is chosen if the options allow no phrasing. The first preferred phrasing comes
    before all others. If there is none, it is the first of those with the least key, or the one at
    the place that a number drawn stands for, counted among the phrasings that the options allow.
    The source is left alone except where a number is drawn from it. -/
inductive Selected : Selection × σ → Prop
  | nothing : (∀ p ∈ ps, ¬ o.Allows p) → Selected (⟨none, .none⟩, source)
  | canonical {p : Phrasing} {place : Nat} : o.AllowsAt ps place p → o.canonicalId = some p.id →
      (∀ q place', o.AllowsAt ps place' q → o.canonicalId = some q.id → place ≤ place') →
      Selected (⟨some (p, place), .canonical⟩, source)
  | leastSeen {p : Phrasing} {place : Nat} : o.AllowsAt ps place p →
      (∀ q ∈ ps, o.Allows q → o.canonicalId ≠ some q.id) → o.preferLeastSeen = true →
      (∀ q ∈ ps, o.Allows q → p.seenKey ≤ q.seenKey) →
      (∀ q place', o.AllowsAt ps place' q → place' < place → p.seenKey < q.seenKey) →
      Selected (⟨some (p, place), .leastSeen⟩, source)
  | random {p : Phrasing} {place : Nat} : o.AllowsAt ps place p →
      (∀ q ∈ ps, o.Allows q → o.canonicalId ≠ some q.id) → o.preferLeastSeen = false →
      Drawn (draw source).1 (ps.countP o.Allows) ((ps.take place).countP o.Allows) →
      Selected (⟨some (p, place), .random⟩, (draw source).2)

variable {draw source o ps}

theorem Selected.allowsAt {s : Selection} {source' : σ} {p : Phrasing} {place : Nat}
    (h : Selected draw source o ps (s, source')) (hs : s.choice = some (p, place)) :
    o.AllowsAt ps place p := by
  cases h with
  | nothing => cases hs
  | canonical hp =>
    cases hs
    exact hp
  | leastSeen hp =>
    cases hs
    exact hp
  | random hp =>
    cases hs
    exact hp

/-- The choice is empty exactly where its reason says so, and where the options allow no
    phrasing. -/
theorem Selected.choice_eq_none_iff {s : Selection} {source' : σ}
    (h : Selected draw source o ps (s, source')) :
    (s.choice = none ↔ ∀ p ∈ ps, ¬ o.Allows p) ∧ (s.reason = .none ↔ s.choice = none) := by
  have hsome : ∀ {p place}, s.choice = some (p, place) → ¬ ∀ p ∈ ps, ¬ o.Allows p :=
    fun hs hnone => hnone _ (List.mem_of_getElem? (h.allowsAt hs).1) (h.allowsAt hs).2
  cases h with
  | nothing hnone => exact ⟨iff_of_true rfl hnone, iff_of_true rfl rfl⟩
  | canonical => exact ⟨iff_of_false (by simp) (hsome rfl), iff_of_false (by simp) (by simp)⟩
  | leastSeen => exact ⟨iff_of_false (by simp) (hsome rfl), iff_of_false (by simp) (by simp)⟩
  | random => exact ⟨iff_of_false (by simp) (hsome rfl), iff_of_false (by simp) (by simp)⟩

/-- The first that is preferred comes before all others that are. -/
theorem selected_of_find? {p : Phrasing} {place : Nat}
    (h : (o.allowed ps).find? (fun x => some x.1.id = o.canonicalId) = some (p, place)) :
    Selected draw source o ps (⟨some (p, place), .canonical⟩, source) := by
  obtain ⟨hp, before, after, heq, hbefore⟩ := List.find?_eq_some_iff_append.1 h
  obtain ⟨-, hafter⟩ := places_of_allowed heq
  refine .canonical (mem_allowed.1 (List.mem_of_find?_eq_some h)) (of_decide_eq_true hp).symm ?_
  intro q place' hq hcanonical
  have hmem := mem_allowed.2 hq
  rw [heq] at hmem
  rcases List.mem_append.1 hmem with hmem | hmem
  · have hother := hbefore _ hmem
    simp [hcanonical] at hother
  · rcases List.mem_cons.1 hmem with heq' | hmem
    · exact (congrArg Prod.snd heq').symm.le
    · exact (hafter _ hmem).le

/-- The first of those that are seen least. -/
theorem selected_of_leastSeen? {x : Phrasing × Nat} {rest : List (Phrasing × Nat)}
    (heq : o.allowed ps = x :: rest) (hother : ∀ q ∈ ps, o.Allows q → o.canonicalId ≠ some q.id)
    (hprefer : o.preferLeastSeen = true) :
    Selected draw source o ps (⟨leastSeen? (x :: rest), .leastSeen⟩, source) := by
  obtain ⟨before, ⟨p, place⟩, after, hbest, hsplit, hbefore, hafter⟩ := foldl_seenLess rest x
  have hchoice : leastSeen? (x :: rest) = some (p, place) := by rw [leastSeen?, hbest]
  rw [hsplit] at heq
  obtain ⟨-, hplaces⟩ := places_of_allowed heq
  have hmem : ∀ q place', o.AllowsAt ps place' q →
      (q, place') ∈ before ∨ (q, place') = (p, place) ∨ (q, place') ∈ after := by
    intro q place' hq
    have hq := mem_allowed.2 hq
    rw [heq, List.mem_append, List.mem_cons] at hq
    exact hq
  have hp : o.AllowsAt ps place p := by
    rw [← mem_allowed, heq]
    exact List.mem_append_right _ List.mem_cons_self
  rw [hchoice]
  refine .leastSeen hp hother hprefer ?_ ?_
  · intro q hq hallows
    obtain ⟨place', hq⟩ := exists_allowsAt hq hallows
    rcases hmem q place' hq with hq | hq | hq
    · exact (hbefore _ hq).le
    · obtain ⟨rfl, -⟩ := Prod.mk.inj hq
      exact le_rfl
    · exact hafter _ hq
  · intro q place' hq hlt
    rcases hmem q place' hq with hq | hq | hq
    · exact hbefore _ hq
    · obtain ⟨-, rfl⟩ := Prod.mk.inj hq
      exact absurd hlt (Nat.lt_irrefl _)
    · exact absurd (hplaces _ hq) hlt.asymm

/-- The one at the place that a number drawn stands for. -/
theorem selected_of_randomPlace (hne : o.allowed ps ≠ [])
    (hother : ∀ q ∈ ps, o.Allows q → o.canonicalId ≠ some q.id)
    (hprefer : o.preferLeastSeen = false) :
    Selected draw source o ps
      (⟨(o.allowed ps)[randomPlace (draw source).1 (o.allowed ps).length]?, .random⟩,
        (draw source).2) := by
  have hdrawn := drawn_randomPlace (draw source).1 (o.allowed ps).length
  have hlt := randomPlace_lt (draw source).1 (List.length_pos_iff.2 hne)
  cases hchoice : (o.allowed ps)[randomPlace (draw source).1 (o.allowed ps).length]? with
  | none => exact absurd hlt (Nat.not_lt.2 (List.getElem?_eq_none_iff.1 hchoice))
  | some x =>
    rw [← countP_take_of_allowed hchoice, length_allowed] at hdrawn
    exact .random (mem_allowed.1 (List.mem_of_getElem? hchoice)) hother hprefer hdrawn

end Selected

/-- Whatever the list of phrasings, the options and the source of random numbers are, the choice is
    the one that `Selected` describes. -/
theorem selected_select {σ : Type} (draw : σ → Float × σ) (source : σ) (o : SelectionOptions)
    (ps : List Phrasing) :
    Selected draw source o ps (select draw source o ps) ∧
    ((select draw source o ps).1.choice = none ↔ ∀ p ∈ ps, ¬ o.Allows p) ∧
    ((select draw source o ps).1.reason = .none ↔ (select draw source o ps).1.choice = none) := by
  have hselected : Selected draw source o ps (select draw source o ps) := by
    simp only [select, SelectionOptions.filter_isShowable]
    cases hallowed : o.allowed ps with
    | nil =>
      refine .nothing fun p hp hallows => ?_
      obtain ⟨place, hp⟩ := SelectionOptions.exists_allowsAt hp hallows
      have hmem := SelectionOptions.mem_allowed.2 hp
      rw [hallowed] at hmem
      cases hmem
    | cons x rest =>
      simp only
      rw [← hallowed]
      cases hfind : (o.allowed ps).find? fun q => some q.1.id = o.canonicalId with
      | some q => exact selected_of_find? hfind
      | none =>
        have hother : ∀ q ∈ ps, o.Allows q → o.canonicalId ≠ some q.id := by
          intro q hq hallows hcanonical
          obtain ⟨place, hq⟩ := SelectionOptions.exists_allowsAt hq hallows
          exact List.find?_eq_none.1 hfind _ (SelectionOptions.mem_allowed.2 hq)
            (decide_eq_true hcanonical.symm)
        cases hprefer : o.preferLeastSeen with
        | true =>
          simp only [if_true]
          rw [hallowed]
          exact selected_of_leastSeen? hallowed hother hprefer
        | false =>
          simp only [Bool.false_eq_true, if_false]
          have hne : o.allowed ps ≠ [] := by simp [hallowed]
          exact selected_of_randomPlace hne hother hprefer
  exact ⟨hselected, hselected.choice_eq_none_iff⟩

end SpacedReview
