import SpacedReview.Text.Numeral

/-!
# Arguments of the command line

The arguments are read from left to right. Options for every command come before or after its
name, all others after it. The value of an option is the next argument or follows an equals sign,
and after two lone dashes no argument is an option any more. `Request.read?` finds nothing in
arguments that make no sense.

## Main definitions

- `Command` — what the program can be asked to do
- `Request` — what some arguments ask for
- `Form` — the options and places that a command has
- `Request.read?` — reading arguments
-/

namespace SpacedReview

/-- A question to be added. -/
structure NewPhrasing where
  conceptId : String
  question : String
  answer : String
  options : List String
  explanation : Option String
  /-- The question is always asked for its concept. -/
  isCanonical : Bool
deriving Repr, DecidableEq

/-- What the program can be asked to do. -/
inductive Command where
  | addConcept (title : String) (description : Option String)
  | addPhrasing (p : NewPhrasing)
  | archivePhrasing (id : String)
  /-- Lists due concepts, no more than a number. -/
  | due (limit : Nat)
  | stats
  /-- Asks questions, until a number of answers was given. -/
  | review (limit : Option Nat)
deriving Repr, DecidableEq

/-- What some arguments ask for. -/
inductive Request where
  | help
  | version
  /-- A command, with the folder of the database if one is named. -/
  | run (folder : Option String) (c : Command)
deriving Repr, DecidableEq

/-- An argument by its form. -/
inductive Argument where
  /-- Two lone dashes. -/
  | stop
  /-- A word after two dashes, with the value after an equals sign. -/
  | long (name : String) (value : Option String)
  /-- Letters after one dash. -/
  | short (letters : List Char)
  /-- Anything else. -/
  | plain (text : String)
deriving Repr, DecidableEq

/-- The form of an argument. -/
def Argument.ofText (s : String) : Argument :=
  match s.toList with
  | ['-', '-'] => stop
  | '-' :: '-' :: cs =>
    let name := String.ofList (cs.takeWhile (· ≠ '='))
    match cs.dropWhile (· ≠ '=') with
    | [] => long name none
    | _ :: value => long name (some (String.ofList value))
  | '-' :: c :: cs => short (c :: cs)
  | _ => plain s

/-- The argument can be the value of an option before it. -/
def Argument.isPlain : Argument → Bool
  | plain _ => true
  | _ => false

/-- What an option is followed by, and how often it can be given. -/
inductive OptionKind where
  /-- Nothing, and once. -/
  | flag
  /-- A value, and once. -/
  | value
  /-- A value of at least one character, and once. -/
  | filled
  /-- A value, and any number of times. -/
  | list
deriving Repr, DecidableEq

/-- The options and places that a command has. -/
structure Form where
  options : List (String × OptionKind)
  /-- The number of arguments beside the options. -/
  places : Nat
deriving Repr, DecidableEq

/-- What was given so far: options with their values, empty for flags, and arguments beside
    them. -/
structure Given where
  options : List (String × String)
  places : List String
deriving Repr, DecidableEq

namespace Given

/-- Nothing was given. -/
def nothing : Given :=
  ⟨[], []⟩

/-- What was given with one more option. -/
def add (g : Given) (name value : String) : Given :=
  { g with options := g.options ++ [(name, value)] }

/-- All values of an option. -/
def all (g : Given) (name : String) : List String :=
  (g.options.filter fun o => o.1 = name).map (·.2)

/-- The value of an option. -/
def value? (g : Given) (name : String) : Option String :=
  (g.all name).head?

/-- The option was given. -/
def has (g : Given) (name : String) : Bool :=
  (g.value? name).isSome

end Given

/-- What reading arguments comes to. -/
inductive Scan where
  | help
  | version
  /-- The arguments make no sense. -/
  | wrong
  /-- An argument at a place that the form does not have, and the arguments after it. -/
  | left (g : Given) (text : String) (rest : List String)
  | complete (g : Given)
deriving Repr, DecidableEq

namespace Form

/-- The kind of an option. -/
def kind? (f : Form) (name : String) : Option OptionKind :=
  (f.options.find? fun o => o.1 = name).map (·.2)

/-- What was given with one more option, if it can be given. -/
def give? (f : Form) (g : Given) (name : String) (value : Option String) : Option Given :=
  match f.kind? name, value with
  | some .flag, none => if g.has name then none else some (g.add name "")
  | some .value, some v => if g.has name then none else some (g.add name v)
  | some .filled, some v => if g.has name || v = "" then none else some (g.add name v)
  | some .list, some v => some (g.add name v)
  | _, _ => none

/-- The option is followed by a value. -/
def wantsValue (f : Form) (name : String) : Bool :=
  match f.kind? name with
  | some .flag | none => false
  | some _ => true

/-- Reads arguments that are no options. -/
def fill (f : Form) (g : Given) (rest : List String) : Scan :=
  if g.places.length + rest.length ≤ f.places then
    .complete { g with places := g.places ++ rest }
  else .wrong

/-- Reads arguments after those that were given so far. `isOuter` tells that they come before the
    name of the command. -/
def scan (f : Form) (isOuter : Bool) (g : Given) : List String → Scan
  | [] => .complete g
  | a :: rest =>
    match Argument.ofText a with
    | .stop => f.fill g rest
    | .short ('h' :: _) => .help
    | .short ('V' :: _) => if isOuter then .version else .wrong
    | .short _ => .wrong
    | .long "help" none => .help
    | .long "version" none => if isOuter then .version else .wrong
    | .long name none =>
      if f.wantsValue name then
        match rest with
        | [] => .wrong
        | v :: rest =>
          if (Argument.ofText v).isPlain then
            match f.give? g name (some v) with
            | none => .wrong
            | some g => f.scan isOuter g rest
          else .wrong
      else
        match f.give? g name none with
        | none => .wrong
        | some g => f.scan isOuter g rest
    | .long name (some v) =>
      match f.give? g name (some v) with
      | none => .wrong
      | some g => f.scan isOuter g rest
    | .plain text =>
      if g.places.length < f.places then
        f.scan isOuter { g with places := g.places ++ [text] } rest
      else .left g text rest

end Form

namespace Command

/-- The option that names the folder of the database. -/
def folderOption : String := "data-dir"

/-- The form of the arguments before the name of a command. -/
def outerForm : Form :=
  ⟨[(folderOption, .filled)], 0⟩

/-- The due concepts that are listed unless a number is given. -/
def standardLimit : String := "20"

/-- The form of a command, and the command of what was given. -/
structure Kind where
  name : String
  form : Form
  read? : Given → Option Command

/-- The number in a text. -/
def number? (text : String) : Option Nat :=
  Numeral.readUnsigned? Numeral.word64Limit text

/-- The command that adds a concept. -/
def addConceptKind : Kind where
  name := "add-concept"
  form := ⟨[("description", .value)], 1⟩
  read? g := g.places[0]?.map fun title => .addConcept title (g.value? "description")

/-- The command that adds a phrasing. -/
def addPhrasingKind : Kind where
  name := "add-phrasing"
  form := ⟨[("answer", .value), ("option", .list), ("explanation", .value),
    ("canonical", .flag)], 2⟩
  read? g := do
    return .addPhrasing {
      conceptId := ← g.places[0]?
      question := ← g.places[1]?
      answer := ← g.value? "answer"
      options := g.all "option"
      explanation := g.value? "explanation"
      isCanonical := g.has "canonical" }

/-- The command that archives a phrasing. -/
def archivePhrasingKind : Kind where
  name := "archive-phrasing"
  form := ⟨[], 1⟩
  read? g := g.places[0]?.map .archivePhrasing

/-- The command that lists what is due. -/
def dueKind : Kind where
  name := "due"
  form := ⟨[("limit", .value)], 0⟩
  read? g := (number? ((g.value? "limit").getD standardLimit)).map .due

/-- The command that gives an overview. -/
def statsKind : Kind where
  name := "stats"
  form := ⟨[], 0⟩
  read? _ := some .stats

/-- The command that asks questions. -/
def reviewKind : Kind where
  name := "review"
  form := ⟨[("limit", .value)], 0⟩
  read? g :=
    match g.value? "limit" with
    | none => some (.review none)
    | some text => (number? text).map fun n => .review (some n)

/-- Every command. -/
def kinds : List Kind :=
  [addConceptKind, addPhrasingKind, archivePhrasingKind, dueKind, statsKind, reviewKind]

end Command

namespace Request

/-- Reads the arguments after the name of a command. The folder that is named last counts. -/
def readCommand? (kind : Command.Kind) (outer : Given) (rest : List String) : Option Request :=
  let form := { kind.form with options := kind.form.options ++ Command.outerForm.options }
  match form.scan false .nothing rest with
  | .help => some .help
  | .complete g =>
    let folder := (g.value? Command.folderOption).or (outer.value? Command.folderOption)
    (kind.read? g).map (.run folder)
  | _ => none

/-- Reads arguments. -/
def read? (arguments : List String) : Option Request :=
  match Command.outerForm.scan true .nothing arguments with
  | .help => some .help
  | .version => some .version
  | .left _ "help" rest =>
    if rest.all fun name => Command.kinds.any fun k => k.name = name then some .help else none
  | .left outer name rest =>
    match Command.kinds.find? fun k => k.name = name with
    | none => none
    | some kind => readCommand? kind outer rest
  | _ => none

end Request

end SpacedReview
