import SpacedReview.Files.Tree
import SpacedReview.Settings.Basic
import SpacedReview.Store.Written

/-!
# Database files

A database lives in one file, which its owner alone may read. Opening a database makes the file
if it is not there, but not its folder. The usual place is a folder of its own among the learner's
data, and that folder is made as far as it is missing.

## Main definitions

- `DatabaseFile.usualFolder` — where the database is usually kept
- `DatabaseFile.openAt`, `DatabaseFile.openUsual` — opening a database
- `DatabaseFile.save` — writing a database back
-/

namespace SpacedReview

namespace DatabaseFile

/-- The access mode of the folder of the database: its owner's alone. -/
def folderMode : Nat := 0o700

/-- The access mode of the database: its owner's alone. -/
def fileMode : Nat := 0o600

/-- The name of the database's folder. -/
def folderName : String := "recall"

/-- The variable with the folder of all data. It counts only if it is absolute. -/
def dataVariable : String := "XDG_DATA_HOME"

/-- The variable with the learner's home folder. -/
def homeVariable : String := "HOME"

/-- The folder in which the database usually is. -/
def usualFolder (lookup : String → Option String) : Except StoreError String :=
  match (lookup dataVariable).filter Path.isAbsolute, lookup homeVariable with
  | some data, _ => .ok (Path.join data folderName)
  | none, some home => .ok (Path.join (Path.join home ".local/share") folderName)
  | none, none => .error .noPlace

/-- The path of the database in the usual place, and the tree after its folder was made. -/
def usualPath (lookup : String → Option String) (t : FileTree) :
    Except StoreError (FileTree × String) := do
  let folder ← usualFolder lookup
  let t ← (t.makeFolders folder).mapError fun e => .file e.message
  return (t.setMode (t.locate folder) folderMode, Path.join folder Settings.databaseName)

/-- The database of a file, which is made if it is not there. -/
def openAt (t : FileTree) (path : String) : Except StoreError (FileTree × DatabaseStore) :=
  let place := t.locate path
  let content := match t.find? place with
    | some (.file _ content) => content
    | _ => ""
  match t.write path content with
  | .error _ => .error (.database ("unable to open database file: " ++ path))
  | .ok t =>
    match DatabaseStore.read? content with
    | none => .error (.database "file is not a database")
    | some db => .ok (t.setMode place fileMode, db)

/-- The tree after a database was written to its file. -/
def save (t : FileTree) (path : String) (db : DatabaseStore) : FileTree :=
  match t.write path db.write with
  | .error _ => t
  | .ok t => t

end DatabaseFile

end SpacedReview
