import SpacedReview.CommandLine.Program
import Std.Time.DateTime.Timestamp

/-!
# The command line

The outer layer of the program: it gathers the surroundings of a run, shows what the run says,
reads lines for it, and brings the disk to the state that the run ends in.
-/

namespace SpacedReview

namespace Disk

/-- The path of a place. -/
def pathOf (place : List String) : String :=
  "/" ++ String.intercalate "/" place

/-- The tree with what the disk has at a place. -/
def look (t : FileTree) (place : List String) : IO FileTree := do
  let path := (← IO.currentDir).join (pathOf place)
  if ← path.isDir then return t.put place (.folder FileTree.folderMode)
  else if ← path.pathExists then
    return t.put place (.file FileTree.fileMode (← IO.FS.readFile path))
  else return t

/-- What the disk has on the way to a path, and at the path itself. -/
def read (path : Option String) : IO FileTree := do
  let here := (← IO.currentDir).toString
  let mut t : FileTree := ⟨[], here⟩
  let place := (path.map (Path.parts here)).getD []
  for n in [1:place.length + 1] do
    t ← look t (place.take n)
  return t

/-- The access rights of one group in a mode. -/
def rights (bits : Nat) : IO.AccessRight :=
  { read := bits / 4 % 2 = 1, write := bits / 2 % 2 = 1, execution := bits % 2 = 1 }

/-- Gives a place an access mode. -/
def setMode (path : String) (mode : Nat) : IO Unit :=
  IO.setAccessRights path
    { user := rights (mode / 64), group := rights (mode / 8), other := rights mode }

/-- Brings the disk from one state to another. Nothing is ever removed. -/
def change (before after : FileTree) : IO Unit := do
  for (place, entry) in after.entries do
    if before.find? place ≠ some entry then
      let path := pathOf place
      match entry with
      | .folder _ => IO.FS.createDirAll path
      | .file _ content => IO.FS.writeFile path content
      setMode path entry.mode

end Disk

namespace Clock

/-- The date and time of day. -/
def now : IO Instant := do
  let t ← Std.Time.Timestamp.now
  match Instant.of? t.val.second.val t.val.nano.val.toNat with
  | some instant => return instant
  | none => throw (IO.userError "the clock is out of range")

end Clock

/-- The surroundings of a run with some arguments. -/
def Surroundings.gather (arguments : List String) : IO Surroundings := do
  let values ← Program.variableNames.mapM fun name => do return (name, ← IO.getEnv name)
  let lookup (name : String) := (values.find? fun v => v.1 = name).bind (·.2)
  let bytes ← IO.getRandomBytes 16
  let first := bytes.toList.foldl (fun n b => n * 256 + b.toNat) 0
  return {
    lookup
    files := ← Disk.read (Program.databasePath? lookup arguments)
    now := ← Clock.now
    freshNumber := fun n => first + n }

end SpacedReview

open SpacedReview in
/-- Runs the program with some arguments. -/
def main (arguments : List String) : IO UInt32 := do
  let surroundings ← Surroundings.gather arguments
  let out ← IO.getStdout
  let mut program := Program.start surroundings arguments
  let mut files := surroundings.files
  repeat
    match program with
    | .ended o =>
      Disk.change files o.files
      out.putStr o.output
      (← IO.getStderr).putStr o.errors
      return o.exitCode
    | .asking text _ next _ =>
      Disk.change files next
      files := next
      out.putStr text
      out.flush
      let begun ← IO.monoMsNow
      let line ← (← IO.getStdin).getLine
      let elapsed := UInt64.ofNat ((← IO.monoMsNow) - begun)
      program := program.answer (if line = "" then none else some line) (← Clock.now) elapsed
  return 0
