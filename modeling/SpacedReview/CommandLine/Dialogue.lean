import SpacedReview.CommandLine.Report
import SpacedReview.Session.Timeline

/-!
# Review dialogues

A dialogue shows the questions of a session one after the other and reads a line for each: an
answer, the number of one of the options, or one of two words that skip the question and end the
dialogue. It begins with `Dialogue.start` and goes on with `Dialogue.read`; both come to a `Turn`,
the text to show and the dialogue after it.

## Main definitions

- `Phrasing.chosen` — the answer that a line stands for
- `Dialogue`, `Turn` — a dialogue and what it comes to
- `Dialogue.start`, `Dialogue.read` — going on with a dialogue
-/

namespace SpacedReview

/-- The answer that a line stands for: the option with that number, counted from 1, or else the
    line itself. -/
def Phrasing.chosen (p : Phrasing) (line : String) : String :=
  match Numeral.readUnsigned? Numeral.word64Limit line with
  | some (n + 1) => p.options[n]?.getD line
  | _ => line

/-- What a learner can do with a line. -/
inductive LineMeaning where
  | quit
  | skip
  | answer (text : String)
deriving Repr, DecidableEq

/-- The meaning of a line for a question. Blanks around it do not matter. -/
def Phrasing.meaning (p : Phrasing) (line : String) : LineMeaning :=
  match Text.trim line with
  | "q" => .quit
  | "s" => .skip
  | text => .answer (p.chosen text)

/-- A dialogue about the questions of a session. -/
structure Dialogue (σ : Type) where
  timeline : Timeline σ
  /-- The number of answers after which the dialogue ends. -/
  limit : Option Nat
  /-- The question that a line is read for; none after the end. -/
  question : Option Question
  /-- The lock of the question that was shown last. -/
  lastLock : Option String
  /-- The number of notices that were shown. -/
  noticesShown : Nat
  answered : Nat
  correct : Nat

/-- A text to show and the dialogue after it. -/
structure Turn (σ : Type) where
  text : String
  dialogue : Dialogue σ

namespace Dialogue

variable {σ : Type}

/-- The dialogue has ended. -/
def isOver (d : Dialogue σ) : Bool :=
  d.question.isNone

/-- A session state has something to show after the question with a lock. -/
def isNews (lastLock : Option String) (s : SessionState) : Bool :=
  s.phase = .empty || s.phase = .error || (s.isLocked && s.lock ≠ lastLock)

/-- The notices that were not shown yet, and the dialogue after they were. -/
def showNotices (d : Dialogue σ) : Turn σ :=
  let notices := d.timeline.session.notices
  { text := lines ((notices.drop d.noticesShown).map SessionNotice.line)
    dialogue := { d with noticesShown := notices.length } }

/-- The end of a dialogue: the notices left and the count of correct answers. -/
def finish (d : Dialogue σ) : Turn σ :=
  let turn := { d with question := none }.showNotices
  { turn with
    text := turn.text ++
      lines ["", "Correct: " ++ Numeral.text d.correct ++ "/" ++ Numeral.text d.answered] }

/-- The turn with a text in front. -/
def say (text : String) (turn : Turn σ) : Turn σ :=
  { turn with text := text ++ turn.text }

/-- Every wait for a question ends within this number of milliseconds. -/
def patience (d : Dialogue σ) : Nat :=
  d.timeline.session.setup.loadingTimeout + 1

/-- Shows what the session shows, or ends when nothing is left to review or the limit is
    reached. -/
def proceed (d : Dialogue σ) : Turn σ :=
  let turn := d.showNotices
  let state := d.timeline.session.loop.state
  match state.phase, state.question with
  | .empty, _ => say (turn.text ++ lines ["Nothing left to review."]) turn.dialogue.finish
  | .error, _ =>
    say (turn.text ++ lines [state.errorMessage.getD "Session failed"]) turn.dialogue.finish
  | _, some q =>
    { text := turn.text ++ q.display
      dialogue := { turn.dialogue with question := some q, lastLock := state.lock } }
  | _, none => say turn.text turn.dialogue.finish

/-- Waits for the next question and shows it, unless the limit is reached. -/
def next (d : Dialogue σ) : Turn σ :=
  if d.limit.any (· ≤ d.answered) then d.finish
  else { d with timeline := (d.timeline.waitFor (isNews d.lastLock) d.patience).1 }.proceed

/-- The lines at the beginning of every dialogue. -/
def greeting : String :=
  lines ["=== Review ===", "Type an answer, 's' to skip, 'q' to quit."]

/-- The beginning of a dialogue over a time line. -/
def start (timeline : Timeline σ) (limit : Option Nat) : Turn σ :=
  say greeting
    (next { timeline, limit, question := none, lastLock := none, noticesShown := 0,
            answered := 0, correct := 0 })

/-- The lines after an answer. -/
def feedback (p : Phrasing) (isCorrect : Bool) : String :=
  lines ((if isCorrect then "Correct!" else "Incorrect. Answer: " ++ p.correctAnswer) ::
    p.explanation.toList)

/-- Answers the question on show. -/
def answer (d : Dialogue σ) (q : Question) (text : String) (elapsedMs : UInt64) : Turn σ :=
  let isCorrect := q.candidate.phrasing.accepts text
  say (feedback q.candidate.phrasing isCorrect)
    { d with
      timeline := d.timeline.command (.submit text isCorrect elapsedMs)
      answered := d.answered + 1
      correct := if isCorrect then d.correct + 1 else d.correct }.next

/-- Skips the question on show. -/
def skip (d : Dialogue σ) : Turn σ :=
  say (lines ["Skipped."]) { d with timeline := d.timeline.command .skip }.next

/-- Goes on with a line that was read some milliseconds after the question was shown, or with none
    if there are no more lines. -/
def read (d : Dialogue σ) (line : Option String) (now : Instant) (elapsedMs : UInt64) : Turn σ :=
  let d := { d with timeline := (d.timeline.advance elapsedMs.toNat).act (.setDate now) }
  match d.question, line with
  | some q, some line =>
    match q.candidate.phrasing.meaning line with
    | .quit => d.finish
    | .skip => d.skip
    | .answer text => d.answer q text elapsedMs
  | _, _ => d.finish

end Dialogue

end SpacedReview
