import SpacedReview.CommandLine.Dialogue
import SpacedReview.Files.DatabaseFile
import SpacedReview.Text.Identifier

/-!
# The program

`Program.start` is the program as a function of its arguments and surroundings. Most commands end
at once; a review goes on with each line that it reads. The program never touches anything: it
says what to show and how the files look afterwards.

## Main definitions

- `Surroundings` — what a run of the program depends on
- `Outcome` — how a run ends
- `Program` — a run that has ended, or one that asks for a line
- `Program.start`, `Program.answer` — going on with a run
- `Program.finish` — a whole run
-/

namespace SpacedReview

/-- What a run of the program depends on beside its arguments. -/
structure Surroundings where
  /-- The values of variables. -/
  lookup : String → Option String
  files : FileTree
  now : Instant
  /-- Numbers for new records, each used once. -/
  freshNumber : Nat → Nat

namespace Surroundings

/-- The identifier of a new record. -/
def freshId (w : Surroundings) (n : Nat) : String :=
  Identifier.ofNumber (w.freshNumber n)

end Surroundings

/-- How a run ends. -/
structure Outcome where
  output : String
  /-- The text that reports an error, if there is one. -/
  errors : String
  exitCode : UInt32
  files : FileTree
deriving DecidableEq

/-- A run of the program. -/
inductive Program where
  | ended (o : Outcome)
  /-- The run shows a text and asks for a line. -/
  | asking (text : String) (path : String) (files : FileTree) (d : Dialogue DatabaseStore)

namespace Program

/-- The name and number of the program. -/
def versionText : String := "recall 0.4.0\n"

/-- How the program is used. -/
def helpText : String := lines [
  "Review concepts on a spaced schedule",
  "",
  "Usage: recall [--data-dir DIR] COMMAND",
  "",
  "Commands:",
  "  add-concept TITLE [--description TEXT]",
  "  add-phrasing CONCEPT QUESTION --answer TEXT [--option TEXT]... [--explanation TEXT] " ++
    "[--canonical]",
  "  archive-phrasing PHRASING",
  "  due [--limit N]",
  "  stats",
  "  review [--limit N]"]

/-- The text that reports arguments that make no sense. -/
def usageText : String :=
  lines ["error: unusable arguments", "", "For more information, try '--help'."]

/-- A run that ends well. -/
def done (output : String) (files : FileTree) : Program :=
  .ended { output, errors := "", exitCode := 0, files }

/-- A run that ends with an error. -/
def failed (message : String) (files : FileTree) : Program :=
  .ended { output := "", errors := lines ["Error: " ++ message], exitCode := 1, files }

/-- The path of the database and the files after its folder was made. -/
def prepare (w : Surroundings) (settings : Settings) : Except String (FileTree × String) :=
  match settings.folder, settings.databasePath? with
  | some folder, some path =>
    match w.files.makeFolders folder with
    | .error e => .error e.message
    | .ok files => .ok (files, path)
  | _, _ => (DatabaseFile.usualPath w.lookup w.files).mapError StoreError.message

/-- The path of the database that a run with some arguments opens, if it opens one. -/
def databasePath? (lookup : String → Option String) (arguments : List String) : Option String :=
  match Request.read? arguments with
  | some (.run (some folder) _) => some (Path.join folder Settings.databaseName)
  | some (.run none _) =>
    match DatabaseFile.usualFolder lookup with
    | .ok folder => some (Path.join folder Settings.databaseName)
    | .error _ => none
  | _ => none

/-- The variables that a run looks at. -/
def variableNames : List String :=
  [Settings.intervalVariable, Settings.timeoutVariable, Settings.retentionVariable,
    DatabaseFile.dataVariable, DatabaseFile.homeVariable]

/-- The time line of a review. -/
def timeline (w : Surroundings) (settings : Settings) (db : DatabaseStore) :
    Timeline DatabaseStore :=
  let setup : SessionSetup := {
    sessionId := w.freshId 0, loadingTimeout := settings.timing.loadingTimeout.millisUp,
    lock := Numeral.text }
  .start (.start setup settings.engine db w.now settings.timing.pollInterval.millisUp)
    fun n => w.freshId (n + 1)

/-- The run after a turn of its dialogue. What was answered is in the file. -/
def afterTurn (path : String) (files : FileTree) (turn : Turn DatabaseStore) : Program :=
  let files := DatabaseFile.save files path turn.dialogue.timeline.session.store
  if turn.dialogue.isOver then done turn.text files
  else .asking turn.text path files turn.dialogue

/-- A run with a command on an open database. -/
def runOn (w : Surroundings) (settings : Settings) (path : String) (files : FileTree)
    (db : DatabaseStore) : Command → Program
  | .review limit =>
    afterTurn path files (Dialogue.start (timeline w settings db) limit)
  | c =>
    match c.perform settings path db w.now (w.freshId 0) with
    | .error e => failed e.message (DatabaseFile.save files path db)
    | .ok (db, output) => done output (DatabaseFile.save files path db)

/-- A run with a command. -/
def run (w : Surroundings) (settings : Settings) (c : Command) : Program :=
  match prepare w settings with
  | .error message => failed message w.files
  | .ok (files, path) =>
    match DatabaseFile.openAt files path with
    | .error e => failed e.message files
    | .ok (files, db) => runOn w settings path files db c

/-- The beginning of a run. -/
def start (w : Surroundings) (arguments : List String) : Program :=
  match Request.read? arguments with
  | none => .ended { output := "", errors := usageText, exitCode := 2, files := w.files }
  | some .help => done helpText w.files
  | some .version => done versionText w.files
  | some (.run folder c) =>
    match Settings.read w.lookup with
    | .error e => failed e.message w.files
    | .ok settings => run w (settings.withFolder folder) c

/-- Goes on with a line that was read some milliseconds after it was asked for, or with none if
    there are no more lines. -/
def answer (p : Program) (line : Option String) (now : Instant) (elapsedMs : UInt64) : Program :=
  match p with
  | .ended o => .ended o
  | .asking _ path files d => afterTurn path files (d.read line now elapsedMs)

/-- A whole run that reads some lines, each at once. After the last of them it is told that there
    are no more. -/
def finish (p : Program) (now : Instant) : List String → Outcome
  | [] =>
    match p with
    | .ended o => o
    | .asking text _ files _ =>
      match p.answer none now 0 with
      | .ended o => { o with output := text ++ o.output }
      | .asking _ _ _ _ => { output := text, errors := "", exitCode := 1, files }
  | line :: rest =>
    match p with
    | .ended o => o
    | .asking text _ _ _ =>
      let o := (p.answer (some line) now 0).finish now rest
      { o with output := text ++ o.output }

end Program

end SpacedReview
