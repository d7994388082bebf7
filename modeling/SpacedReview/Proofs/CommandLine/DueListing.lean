import SpacedReview.CommandLine.Report
import SpacedReview.Proofs.Review.Ranking

/-!
# The listing of due concepts

The command `due` takes as many due concepts as are wanted in the order of the database, which is
that of their next reviews with new concepts first, and shows them by priority. Without a limit, or
with one that is not reached, these are all due concepts in the order in which they are asked.
Otherwise they are the first ones of that order exactly if no due concept that is left out has
priority over one that is listed.

## Main definitions

- `DatabaseStore.ReadsDue` — all due concepts in the order of the database
- `Engine.Lists` — what is listed of them

## Main statements

- `Engine.lists_take` — which of the due concepts are listed
- `DatabaseStore.perform_due` — the report of the command
-/

namespace SpacedReview

namespace Engine

/-- What is listed of all due concepts under a limit. -/
structure Lists (e : Engine) (now : Instant) (limit : Nat) (all listed : List Concept) : Prop where
  /-- The first concepts are listed, as many as wanted. -/
  perm : listed.Perm (all.take limit)
  /-- Those with priority come first. -/
  sorted : listed.Pairwise fun a b => e.comparePriority now a b ≠ .gt
  /-- A limit that is not reached leaves the order in which the concepts are asked. -/
  whole : all.length ≤ limit → listed = askingOrder e now [] all
  /-- The listing begins that order exactly if nothing left out has priority over what is
      listed. -/
  begins : listed = (askingOrder e now [] all).take limit ↔
    ∀ a ∈ all.take limit, ∀ b ∈ all.drop limit, e.comparePriority now a b ≠ .gt
  /-- The first line has the concept that comes first of all exactly if nothing left out has
      priority over it. -/
  first : ∀ a ∈ listed.head?, (∀ b ∈ all, e.comparePriority now a b ≠ .gt) ↔
    ∀ b ∈ all.drop limit, e.comparePriority now a b ≠ .gt

variable {e : Engine} {now : Instant}

/-- With nothing put off, concepts are asked by priority. -/
theorem askingOrder_nil (cs : List Concept) :
    askingOrder e now [] cs = e.sortByPriority now cs := by
  simp [askingOrder]

theorem lists_take (e : Engine) (now : Instant) (limit : Nat) (all : List Concept) :
    e.Lists now limit all (e.sortByPriority now (all.take limit)) := by
  have hperm := e.sortByPriority_perm now (all.take limit)
  have hsorted := pairwise_ne_gt_mergeSort (e.comparePriority now) (all.take limit)
  refine ⟨hperm, hsorted, fun hlimit => ?_, ?_, fun a ha => ⟨fun h b hb => ?_, fun h b hb => ?_⟩⟩
  · rw [askingOrder_nil, List.take_of_length_le hlimit]
  · rw [askingOrder_nil]
    exact mergeSort_take_eq_take_iff (e.comparePriority now) all limit
  · exact h b (List.mem_of_mem_drop hb)
  · rw [← List.take_append_drop limit all] at hb
    rcases List.mem_append.1 hb with hb | hb
    · -- The first of the listed concepts comes before all others that are listed.
      obtain ⟨rest, hlisted⟩ := List.head?_eq_some_iff.1 ha
      rw [← sortByPriority, hlisted] at hsorted
      rcases List.mem_cons.1 (hlisted ▸ hperm.mem_iff.2 hb) with rfl | hb
      · have hself : e.comparePriority now b b = .eq := Std.ReflCmp.compare_self
        rw [hself]
        decide
      · exact (List.pairwise_cons.1 hsorted).1 b hb
    · exact h b hb

end Engine

namespace DatabaseStore

/-- The concepts are those of the due rows, each read from its row: new ones first, then by the text
    of the next review and the identifier. -/
def ReadsDue (db : DatabaseStore) (now : Instant) (all : List Concept) : Prop :=
  ∃ rows : List (Row 13), rows.Perm (db.concepts.filter (isDue now)) ∧
    rows.Pairwise (fun q r => compareDue q r ≠ .gt) ∧
    List.Forall₂ (fun r c => ConceptTable.read r = .ok c) rows all

theorem readsDue_of_due {db : DatabaseStore} {now : Instant} {all : List Concept}
    (h : db.due now none = .ok all) : db.ReadsDue now all :=
  ⟨db.dueRows now, List.mergeSort_perm _ _, pairwise_ne_gt_mergeSort compareDue _, mapM_eq_ok.1 h⟩

/-- A limit cuts what is read without it. -/
theorem due_limit {db : DatabaseStore} {now : Instant} {all : List Concept}
    (h : db.due now none = .ok all) (limit : Nat) :
    db.due now (some limit) = .ok (all.take limit) :=
  mapM_eq_ok.2 (List.forall₂_take limit (mapM_eq_ok.1 h))

theorem exists_due {db : DatabaseStore} (h : ∀ r ∈ db.concepts, ∃ c, ConceptTable.read r = .ok c)
    (now : Instant) : ∃ all, db.due now none = .ok all := by
  refine exists_mapM_eq_ok.2 fun r hr => h r ?_
  exact (List.mem_filter.1 (List.mem_mergeSort.1 hr)).1

/-- The command reports the due concepts that its limit leaves, by priority. What it leaves are the
    first ones in the order of the database, and the queue asks all of them by priority. -/
theorem perform_due {db : DatabaseStore} (settings : Settings) (path : String) (now : Instant)
    (id : String) (limit : Nat) (h : ∀ r ∈ db.concepts, ∃ c, ConceptTable.read r = .ok c) :
    ∃ all listed, db.ReadsDue now all ∧ settings.engine.Lists now limit all listed ∧
      Command.perform settings path db now id (.due limit) =
        .ok (db, dueReport settings.engine now listed) ∧
      nextCandidate settings.engine db now [] =
        firstCandidate settings.engine db now (askingOrder settings.engine now [] all) := by
  obtain ⟨all, hall⟩ := exists_due h now
  refine ⟨all, _, readsDue_of_due hall, settings.engine.lists_take now limit all, ?_, ?_⟩
  · have hdue : ReviewStore.due db now (some limit) = .ok (all.take limit) := due_limit hall limit
    simp only [Command.perform, dueListing, hdue]
    rfl
  · have hdue : ReviewStore.due db now none = .ok all := hall
    rw [nextCandidate, hdue]
    rfl

/-- A second after the epoch. -/
def oneSecond : Instant :=
  (Instant.of? 1 0).get rfl

/-- A concept in review that is due from the epoch on. -/
def reviewed : Concept :=
  .create "reviewed" "title" { MemoryState.fresh .epoch with state := .review } .epoch

/-- A new concept that is due a second later. -/
def added : Concept :=
  .create "added" "title" (.fresh oneSecond) .epoch

/-- A database with both concepts in which the state of the new one is written in capitals. -/
def capitals : DatabaseStore :=
  { concepts := [ConceptTable.row reviewed,
      (ConceptTable.row added).set ConceptTable.learningState (.text "NEW")]
    phrasings := [], interactions := [] }

theorem ofName_capitals : LearningState.ofName "NEW" = .new := by
  have hfold : Text.EqualFold LearningState.new.name "NEW" :=
    (by decide +kernel : _ = "new").trans (by decide +kernel)
  simp [LearningState.ofName, LearningState.all, hfold]

theorem forall₂_capitals :
    List.Forall₂ (fun r c => ConceptTable.read r = .ok c) capitals.concepts [reviewed, added] := by
  refine .cons (by decide +kernel) (.cons (ConceptTable.read_eq_ok.2 ?_) .nil)
  exact ⟨rfl, rfl, rfl, ⟨"NEW", rfl, ofName_capitals⟩, rfl, rfl, rfl, rfl, rfl, by decide +kernel,
    rfl, by decide +kernel, by decide +kernel⟩

theorem read_capitals : ∀ r ∈ capitals.concepts, ∃ c, ConceptTable.read r = .ok c :=
  exists_mapM_eq_ok.1 ⟨_, mapM_eq_ok.2 forall₂_capitals⟩

/-- The two are in the order of their next reviews. -/
theorem due_capitals : capitals.due oneSecond none = .ok [reviewed, added] := by
  have hrows : capitals.dueRows oneSecond = capitals.concepts := by
    have hdue : capitals.concepts.filter (isDue oneSecond) = capitals.concepts := by decide +kernel
    rw [dueRows, hdue]
    refine List.mergeSort_of_pairwise (List.pairwise_pair.2 ?_)
    decide +kernel
  rw [due, hrows]
  exact mapM_eq_ok.2 forall₂_capitals

/-- The new one comes first in the order by priority. -/
theorem sortByPriority_capitals (e : Engine) :
    e.sortByPriority oneSecond [reviewed, added] = [added, reviewed] := by
  have hcompare : e.comparePriority oneSecond added reviewed = .lt := rfl
  have hsingle : ([added].mergeSort fun a b => e.comparePriority oneSecond a b ≠ .gt) = [added] :=
    List.mergeSort_singleton added
  rw [Engine.sortByPriority, mergeSort_cons_eq, hsingle,
    List.filter_cons_of_pos (by simp [hcompare]), List.filter_cons_of_neg (by simp [hcompare])]
  rfl

theorem perform_due_capitals :
    (∀ r ∈ capitals.concepts, ∃ c, ConceptTable.read r = .ok c) ∧
      ∃ all listed, capitals.ReadsDue oneSecond all ∧
        Settings.standard.engine.Lists oneSecond 1 all listed ∧
        Command.perform Settings.standard "recall.db" capitals oneSecond "id" (.due 1) =
          .ok (capitals, dueReport Settings.standard.engine oneSecond listed) ∧
        nextCandidate Settings.standard.engine capitals oneSecond [] =
          firstCandidate Settings.standard.engine capitals oneSecond
            (askingOrder Settings.standard.engine oneSecond [] all) :=
  ⟨read_capitals, perform_due Settings.standard "recall.db" oneSecond "id" 1 read_capitals⟩

/-- With a limit of one the command lists another concept than the one that comes first. -/
theorem lists_other_of_capitals :
    (∀ r ∈ capitals.concepts, ∃ c, ConceptTable.read r = .ok c) ∧
      capitals.due oneSecond none = .ok [reviewed, added] ∧
      (Settings.standard.engine.sortByPriority oneSecond [reviewed, added]).take 1 = [added] ∧
      dueListing Settings.standard.engine capitals oneSecond 1 = .ok [reviewed] ∧
      Command.perform Settings.standard "recall.db" capitals oneSecond "id" (.due 1) =
        .ok (capitals, dueReport Settings.standard.engine oneSecond [reviewed]) ∧
      reviewed.id ≠ added.id := by
  have hdue : ReviewStore.due capitals oneSecond (some 1) = .ok [reviewed] :=
    due_limit due_capitals 1
  have hlisting : dueListing Settings.standard.engine capitals oneSecond 1 = .ok [reviewed] := by
    rw [dueListing, hdue]
    exact congrArg Except.ok (List.mergeSort_singleton reviewed)
  refine ⟨read_capitals, due_capitals, ?_, hlisting, ?_, by decide⟩
  · rw [sortByPriority_capitals]
    rfl
  · rw [Command.perform, hlisting]
    rfl

end DatabaseStore

end SpacedReview
