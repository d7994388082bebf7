import SpacedReview.CommandLine.Dialogue
import SpacedReview.Proofs.Session.Exhaustion
import SpacedReview.Proofs.Text.Typed

/-!
# Answers in a dialogue

A line can be read in two ways, as the number of an option and as the text of an answer. The number
comes first: a line that is the number of an option stands for that option, with as many leading
zeros as one likes, and every other line stands for itself. So the number on show in front of a
right option is always graded right. The text of the right answer is too, unless it happens to be
the number of an option that is wrong.

## Main definitions

- `Phrasing.Names` — a line is the number of an option
- `Phrasing.Graded` — the answer that a line stands for and its grade
- `Dialogue.after`, `Dialogue.graded` — a dialogue that has read a line and graded an answer

## Main statements

- `Phrasing.exists_graded` — every line has a grade
- `Dialogue.read_graded` — a dialogue submits the answer with its grade
-/

namespace SpacedReview

namespace Phrasing

variable {p : Phrasing} {line option : String}

/-- The line is the number of an option, counted from 1, with blanks around it. -/
def Names (p : Phrasing) (line option : String) : Prop :=
  ∃ n, Numeral.IsUnsigned (Text.trim line).toList (n + 1) ∧ p.options[n]? = some option

/-- The answer that a line stands for, and whether it is right. -/
inductive Graded (p : Phrasing) (line : String) : String → Bool → Prop
  | option {option : String} (h : p.Names line option) : Graded p line option (p.accepts option)
  | text (h : ∀ option, ¬ p.Names line option) : Graded p line (Text.trim line) (p.accepts line)

/-- The line is the number that is on show in front of a right option. -/
def ShowsRight (p : Phrasing) (line : String) : Prop :=
  ∃ n option, Text.trim line = Numeral.text (n + 1) ∧ p.options[n]? = some option ∧
    p.accepts option

theorem accepts_trim (p : Phrasing) (line : String) :
    p.accepts (Text.trim line) = p.accepts line := by
  rw [accepts, Text.trim_trim, accepts]

theorem chosen_of_names (hoptions : p.options.length ≤ Numeral.word64Limit)
    (h : p.Names line option) : p.chosen (Text.trim line) = option := by
  obtain ⟨n, hn, hoption⟩ := h
  have hlt : n < p.options.length := (List.getElem?_eq_some_iff.1 hoption).1
  have hread : Numeral.readUnsigned? Numeral.word64Limit (Text.trim line) = some (n + 1) :=
    Numeral.readUnsigned?_eq_some.2 ⟨hn, by omega⟩
  simp only [chosen, hread, hoption, Option.getD_some]

theorem chosen_of_forall_not_names (h : ∀ option, ¬ p.Names line option) :
    p.chosen (Text.trim line) = Text.trim line := by
  unfold chosen
  split
  · rename_i n hread
    have hnone : p.options[n]? = none := by
      refine Option.eq_none_iff_forall_ne_some.2 fun option hoption => h option ⟨n, ?_, hoption⟩
      exact (Numeral.readUnsigned?_eq_some.1 hread).1
    rw [hnone, Option.getD_none]
  · rfl

theorem ShowsRight.exists_names (h : p.ShowsRight line) :
    ∃ option, p.Names line option ∧ p.accepts option := by
  obtain ⟨n, option, hline, hoption, hright⟩ := h
  refine ⟨option, ⟨n, ?_, hoption⟩, hright⟩
  rw [hline, Numeral.text, String.toList_ofList]
  exact Numeral.isUnsigned_digits (n + 1)

/-- A line that is no word of the dialogue is an answer. -/
theorem meaning_of_ne (hquit : Text.trim line ≠ "q") (hskip : Text.trim line ≠ "s") :
    p.meaning line = .answer (p.chosen (Text.trim line)) := by
  unfold meaning
  split
  · contradiction
  · contradiction
  · rfl

/-- Every line has a grade. -/
theorem exists_graded (hoptions : p.options.length ≤ Numeral.word64Limit) (line : String) :
    p.Graded line (p.chosen (Text.trim line)) (p.accepts (p.chosen (Text.trim line))) := by
  by_cases h : ∃ option, p.Names line option
  · obtain ⟨option, h⟩ := h
    rw [chosen_of_names hoptions h]
    exact .option h
  · have h := not_exists.1 h
    rw [chosen_of_forall_not_names h, accepts_trim]
    exact .text h

/-- No line is the number of two options. -/
theorem Names.unique (hoptions : p.options.length ≤ Numeral.word64Limit) {other : String}
    (h : p.Names line option) (hother : p.Names line other) : option = other :=
  (chosen_of_names hoptions h).symm.trans (chosen_of_names hoptions hother)

theorem Graded.right_of_showsRight (hoptions : p.options.length ≤ Numeral.word64Limit)
    {answer : String} {right : Bool} (hgraded : p.Graded line answer right)
    (h : p.ShowsRight line) : right = true := by
  obtain ⟨option, hnames, hright⟩ := h.exists_names
  cases hgraded with
  | option hother => rwa [hother.unique hoptions hnames]
  | text hnone => exact absurd hnames (hnone option)

/-- The text of the right answer is graded wrong exactly if it is the number of a wrong option. -/
theorem Graded.right_iff_of_accepts {answer : String} {right : Bool}
    (hoptions : p.options.length ≤ Numeral.word64Limit)
    (hgraded : p.Graded line answer right) (h : p.accepts line) :
    right = true ↔ ∀ option, p.Names line option → p.accepts option := by
  cases hgraded with
  | option hnames =>
    constructor
    · intro hright other hother
      rwa [hother.unique hoptions hnames]
    · exact fun hall => hall _ hnames
  | text hnone => exact iff_of_true h fun option hnames => absurd hnames (hnone option)

end Phrasing

namespace Dialogue

variable {σ : Type}

/-- The dialogue when a line is read some milliseconds after its question was shown. -/
def after (d : Dialogue σ) (now : Instant) (elapsedMs : UInt64) : Dialogue σ :=
  { d with timeline := (d.timeline.advance elapsedMs.toNat).act (.setDate now) }

theorem read_of_meaning {d : Dialogue σ} {q : Question} {line text : String} (now : Instant)
    (elapsedMs : UInt64) (hquestion : d.question = some q)
    (hmeaning : q.candidate.phrasing.meaning line = .answer text) :
    d.read (some line) now elapsedMs = (d.after now elapsedMs).answer q text elapsedMs := by
  obtain ⟨timeline, limit, question, lastLock, noticesShown, answered, correct⟩ := d
  obtain rfl : question = some q := hquestion
  delta read
  dsimp only
  rw [hmeaning]
  rfl

/-- The answer is submitted with its grade, and the dialogue says what the grade is and goes on. -/
def graded (d : Dialogue σ) (q : Question) (answer : String) (right : Bool)
    (elapsedMs : UInt64) : Turn σ :=
  say (feedback q.candidate.phrasing right)
    { d with
      timeline := d.timeline.command (.submit answer right elapsedMs)
      answered := d.answered + 1
      correct := if right then d.correct + 1 else d.correct }.next

/-- A line that is no word of the dialogue is submitted as the answer that it stands for, with the
    grade of that answer. The number on show in front of a right option is graded right, and so is
    the text of the right answer unless it is the number of a wrong option. -/
theorem read_graded {d : Dialogue σ} {q : Question} {line : String} (now : Instant)
    (elapsedMs : UInt64) (hquestion : d.question = some q)
    (hoptions : q.candidate.phrasing.options.length ≤ Numeral.word64Limit)
    (hquit : Text.trim line ≠ "q") (hskip : Text.trim line ≠ "s") :
    ∃ answer right, q.candidate.phrasing.Graded line answer right ∧
      d.read (some line) now elapsedMs =
        (d.after now elapsedMs).graded q answer right elapsedMs ∧
      (q.candidate.phrasing.ShowsRight line → right = true) ∧
      (q.candidate.phrasing.accepts line → (right = true ↔
        ∀ option, q.candidate.phrasing.Names line option →
          q.candidate.phrasing.accepts option)) := by
  have hgraded := Phrasing.exists_graded hoptions line
  have hmeaning := Phrasing.meaning_of_ne (p := q.candidate.phrasing) hquit hskip
  exact ⟨_, _, hgraded, read_of_meaning now elapsedMs hquestion hmeaning,
    hgraded.right_of_showsRight hoptions, hgraded.right_iff_of_accepts hoptions⟩

/-- A question about numbers, the second of which is right. -/
def sum : Question :=
  { candidate := { VolatileStore.newQuestion "c" .epoch with
      phrasing := { Phrasing.create "c" "c" "2 + 2" "4" .epoch with
        options := ["3", "4", "5", "6"] } }
    lock := "lock" }

/-- A dialogue that shows the question. -/
def asksSum : Dialogue VolatileStore :=
  { timeline := .start RunningSession.oneQuestion fun _ => "interaction", limit := none,
    question := some sum, lastLock := some sum.lock, noticesShown := 0, answered := 0,
    correct := 0 }

/-- The number in front of the right option is graded right. The right answer itself is the number
    of a wrong option, and graded wrong. -/
theorem read_graded_sum :
    asksSum.question = some sum ∧
      sum.candidate.phrasing.options.length ≤ Numeral.word64Limit ∧
      (Text.trim " 2" ≠ "q" ∧ Text.trim " 2" ≠ "s" ∧ sum.candidate.phrasing.ShowsRight " 2" ∧
        ∃ answer, sum.candidate.phrasing.Graded " 2" answer true ∧
          asksSum.read (some " 2") .epoch 0 =
            (asksSum.after .epoch 0).graded sum answer true 0) ∧
      Text.trim "4" ≠ "q" ∧ Text.trim "4" ≠ "s" ∧ sum.candidate.phrasing.accepts "4" ∧
        sum.candidate.phrasing.Names "4" "6" ∧
        ∃ answer, sum.candidate.phrasing.Graded "4" answer false ∧
          asksSum.read (some "4") .epoch 0 =
            (asksSum.after .epoch 0).graded sum answer false 0 := by
  have hoptions : sum.candidate.phrasing.options.length ≤ Numeral.word64Limit := by decide
  have hright : sum.candidate.phrasing.accepts "4" := decide_eq_true rfl
  have hwrong : sum.candidate.phrasing.accepts "6" = false := by decide +kernel
  refine ⟨rfl, hoptions, ?_, ?_⟩
  · have hquit : Text.trim " 2" ≠ "q" := by decide
    have hskip : Text.trim " 2" ≠ "s" := by decide
    have hnumber : Text.trim " 2" = Numeral.text 2 := by
      rw [Numeral.text, Numeral.digits_of_lt (by decide)]
      decide
    have hshows : sum.candidate.phrasing.ShowsRight " 2" := ⟨1, "4", hnumber, rfl, hright⟩
    obtain ⟨answer, right, hgraded, hread, hshown, -⟩ :=
      read_graded (d := asksSum) .epoch 0 rfl hoptions hquit hskip
    obtain rfl := hshown hshows
    exact ⟨hquit, hskip, hshows, answer, hgraded, hread⟩
  · have hquit : Text.trim "4" ≠ "q" := by decide
    have hskip : Text.trim "4" ≠ "s" := by decide
    have hnames : sum.candidate.phrasing.Names "4" "6" := by
      have hdigits : (Text.trim "4").toList = Numeral.digits 4 := by
        rw [Numeral.digits_of_lt (by decide)]
        decide
      refine ⟨3, ?_, rfl⟩
      rw [hdigits]
      exact Numeral.isUnsigned_digits 4
    obtain ⟨answer, right, hgraded, hread, -, haccepted⟩ :=
      read_graded (d := asksSum) .epoch 0 rfl hoptions hquit hskip
    have hright' : right = false := by
      rw [← Bool.not_eq_true, haccepted hright]
      intro hall
      have hsix := hall "6" hnames
      rw [hwrong] at hsix
      cases hsix
    subst hright'
    exact ⟨hquit, hskip, hright, hnames, answer, hgraded, hread⟩

/-- The text of the right answer is the number of a wrong option. -/
theorem graded_wrong_of_sum :
    (∃ option ∈ sum.candidate.phrasing.options, sum.candidate.phrasing.accepts option) ∧
      Text.trim "4" ≠ "q" ∧ Text.trim "4" ≠ "s" ∧ sum.candidate.phrasing.accepts "4" ∧
      sum.candidate.phrasing.accepts "6" = false ∧
      asksSum.read (some "4") .epoch 0 = (asksSum.after .epoch 0).graded sum "6" false 0 := by
  have hmeaning : sum.candidate.phrasing.meaning "4" = .answer "6" := by decide
  have hwrong : sum.candidate.phrasing.accepts "6" = false := by decide +kernel
  have hright : sum.candidate.phrasing.accepts "4" := decide_eq_true rfl
  refine ⟨⟨"4", by decide, hright⟩, by decide, by decide, hright, hwrong, ?_⟩
  rw [read_of_meaning .epoch 0 rfl hmeaning, answer, hwrong, graded]

end Dialogue

end SpacedReview
