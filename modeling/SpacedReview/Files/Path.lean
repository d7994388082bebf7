/-!
# Paths

A path is a text whose parts are separated by slashes; an absolute one begins with a slash. Empty
parts and single dots stand for nothing, and two dots lead back from the part before them.
-/

namespace SpacedReview

namespace Path

/-- The path begins at the root. -/
def isAbsolute (path : String) : Bool :=
  path.toList.head? = some '/'

/-- The path of a name in a folder. An absolute name stays as it is, and so does any name in a
    folder without a name. -/
def join (folder name : String) : String :=
  if isAbsolute name || folder = "" then name
  else if folder.toList.getLast? = some '/' then folder ++ name
  else folder ++ "/" ++ name

/-- The texts between slashes. -/
def splitSlash : List Char → List (List Char)
  | [] => [[]]
  | c :: cs =>
    if c = '/' then [] :: splitSlash cs
    else
      match splitSlash cs with
      | [] => [[c]]
      | part :: parts => (c :: part) :: parts

/-- The parts on a path after one more part, the last of them first. -/
def enter (parts : List String) (part : String) : List String :=
  if part = "" || part = "." then parts
  else if part = ".." then parts.tail
  else part :: parts

/-- The parts of a path from the root. One that is not absolute begins in the given folder. -/
def parts (folder path : String) : List String :=
  let whole := if isAbsolute path then path else join folder path
  (((splitSlash whole.toList).map String.ofList).foldl enter []).reverse

end Path

end SpacedReview
