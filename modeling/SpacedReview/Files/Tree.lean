import SpacedReview.Files.Path

/-!
# File trees

A `FileTree` is what a program sees of a file system: folders and files with their access modes,
each at the parts of its path from the root, and the folder that relative paths begin in. The
root itself is always there.

## Main definitions

- `FileTree` — the entries of a file system
- `FileTree.makeFolders` — a folder with all folders on the way to it
- `FileTree.write` — a file with a content
-/

namespace SpacedReview

/-- Why the file system refused an operation. -/
inductive FileError where
  /-- Something on the way to the place is not there. -/
  | missing
  /-- Something on the way to the place is no folder. -/
  | notFolder
  /-- Something else is at the place. -/
  | occupied
deriving Repr, DecidableEq

/-- The text that reports the error. -/
def FileError.message : FileError → String
  | missing => "No such file or directory (os error 2)"
  | notFolder => "Not a directory (os error 20)"
  | occupied => "File exists (os error 17)"

/-- What is at a place of a file system. -/
inductive FileEntry where
  | folder (mode : Nat)
  | file (mode : Nat) (content : String)
deriving Repr, DecidableEq

namespace FileEntry

/-- The entry is a folder. -/
def isFolder : FileEntry → Bool
  | folder _ => true
  | file _ _ => false

/-- The access mode. -/
def mode : FileEntry → Nat
  | folder m => m
  | file m _ => m

/-- The entry with another access mode. -/
def withMode (m : Nat) : FileEntry → FileEntry
  | folder _ => folder m
  | file _ content => file m content

end FileEntry

/-- The entries of a file system by the parts of their paths. -/
structure FileTree where
  entries : List (List String × FileEntry)
  /-- The folder in which relative paths begin. -/
  here : String
deriving DecidableEq

namespace FileTree

/-- The access mode of a new folder. -/
def folderMode : Nat := 0o755

/-- The access mode of a new file. -/
def fileMode : Nat := 0o644

/-- The parts of a path. -/
def locate (t : FileTree) (path : String) : List String :=
  Path.parts t.here path

/-- What is at a place. -/
def find? (t : FileTree) (place : List String) : Option FileEntry :=
  if place = [] then some (.folder folderMode)
  else (t.entries.find? fun e => e.1 = place).map (·.2)

/-- The tree with an entry at a place. -/
def put (t : FileTree) (place : List String) (e : FileEntry) : FileTree :=
  { t with entries := t.entries.filter (fun q => q.1 ≠ place) ++ [(place, e)] }

/-- The tree with another access mode at a place where something is. -/
def setMode (t : FileTree) (place : List String) (mode : Nat) : FileTree :=
  match t.find? place with
  | some e => t.put place (e.withMode mode)
  | none => t

/-- Makes the folders that are missing on the way from one place along some parts. -/
def makeAlong (t : FileTree) (place : List String) : List String → Except FileError FileTree
  | [] => .ok t
  | part :: rest =>
    let place := place ++ [part]
    match t.find? place with
    | some e =>
      if e.isFolder then t.makeAlong place rest
      else .error (if rest = [] then .occupied else .notFolder)
    | none => (t.put place (.folder folderMode)).makeAlong place rest

/-- Makes a folder with all folders on the way to it, as far as they are missing. -/
def makeFolders (t : FileTree) (path : String) : Except FileError FileTree :=
  t.makeAlong [] (t.locate path)

/-- Writes a file in a folder that is there. A file that is there keeps its access mode. -/
def write (t : FileTree) (path content : String) : Except FileError FileTree :=
  let place := t.locate path
  match t.find? place.dropLast, t.find? place with
  | none, _ => .error .missing
  | some (.file _ _), _ => .error .notFolder
  | some (.folder _), some (.folder _) => .error .occupied
  | some (.folder _), some (.file mode _) => .ok (t.put place (.file mode content))
  | some (.folder _), none => .ok (t.put place (.file fileMode content))

end FileTree

end SpacedReview
