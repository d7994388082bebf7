import SpacedReview.Decimal.Reader
import SpacedReview.Files.Path
import SpacedReview.Retention.Curve
import SpacedReview.Settings.Timing
import SpacedReview.Text.Blank

/-!
# Settings

What a learner can set: the timing of sessions, the recall wanted at the time of a review, and the
folder of the database. The first two are read from named variables. A variable that is not there
or has a value that cannot be used counts as not set, each on its own.

## Main definitions

- `Settings` — all settings
- `Settings.read` — the settings of some variables
- `Settings.databasePath?` — where the database is
-/

namespace SpacedReview

/-- What a learner can set. -/
structure Settings where
  timing : Timing
  /-- The recall wanted when a concept is due. -/
  retention : Float
  /-- The folder of the database, if it is not the usual one. -/
  folder : Option String
deriving DecidableEq

namespace Settings

/-- The settings of a learner who has set nothing. -/
def standard : Settings :=
  ⟨.standard, Curve.standardRetention, none⟩

/-- The variable with the milliseconds between polls. -/
def intervalVariable : String := "RECALL_POLL_INTERVAL_MS"

/-- The variable with the milliseconds that a session waits for a question. -/
def timeoutVariable : String := "RECALL_LOADING_TIMEOUT_MS"

/-- The variable with the wanted recall. -/
def retentionVariable : String := "RECALL_DESIRED_RETENTION"

/-- The value of a text as milliseconds: a numeral of a positive number with blanks around it. -/
def millis? (text : String) : Option UInt64 :=
  match Numeral.readUnsigned? Numeral.word64Limit (Text.trim text) with
  | some 0 => none
  | some n => some (UInt64.ofNat n)
  | none => none

/-- The value of a text as a recall: a number between zero and one with blanks around it. -/
def retention? (text : String) : Option Float :=
  match Decimal.readFloat? (Text.trim text) with
  | some x => if 0.0 < x ∧ x < 1.0 then some x else none
  | none => none

/-- The settings of some variables. -/
def read (lookup : String → Option String) : Except TimingError Settings := do
  let interval := ((lookup intervalVariable).bind millis?).getD Timing.standardInterval
  let timeout := ((lookup timeoutVariable).bind millis?).getD Timing.standardTimeout
  let retention := ((lookup retentionVariable).bind retention?).getD Curve.standardRetention
  let timing ← Timing.normalize ⟨.ofMillis interval, .ofMillis timeout⟩
  return { timing, retention, folder := none }

/-- The settings with another folder. -/
def withFolder (s : Settings) (folder : Option String) : Settings :=
  { s with folder }

/-- The name of the database in its folder. -/
def databaseName : String := "recall.db"

/-- Where the database is, if it is not in the usual place. -/
def databasePath? (s : Settings) : Option String :=
  s.folder.map fun folder => Path.join folder databaseName

end Settings

end SpacedReview
