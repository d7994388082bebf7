import SpacedReview.Json.Number
import SpacedReview.Store.Database

/-!
# The written form of a database

A database is kept in a file as a heading and one document, which lists the rows of each table
and the cells of each row. Floats are written by their bits, so that nothing is lost.
-/

namespace SpacedReview

namespace Cell

/-- The document of a cell. -/
def toJson : Cell → Json
  | null => .null
  | integer n => .number { Decimal.Token.ofNat n.natAbs with negative := n < 0 }
  | real x => .ofFields [("real", some (.ofNat x.toBits.toNat))]
  | text s => .ofString s

/-- The cell of a document. -/
def ofJson? : Json → Option Cell
  | .null => some null
  | .number t => (Json.tokenInt? t).map integer
  | .string s => s.map text
  | j => do
    let r ← j.record? ["real"]
    let bits ← r.required? "real" Json.word64?
    return real (Float.ofBits bits)

end Cell

namespace DatabaseStore

/-- The document of some rows. -/
def rowsToJson {n : Nat} (rows : List (Row n)) : Json :=
  .array (rows.map fun r => .array (r.toList.map Cell.toJson))

/-- The row of a document. -/
def rowOfJson? {n : Nat} (j : Json) : Option (Row n) := do
  let cells ← j.list? Cell.ofJson?
  if h : cells.length = n then return ⟨⟨cells⟩, h⟩ else none

/-- The rows of a document. -/
def rowsOfJson? {n : Nat} : Json → Option (List (Row n)) :=
  Json.list? rowOfJson?

/-- The names of the tables. -/
def tableNames : List String :=
  ["concepts", "phrasings", "interactions"]

/-- The document of a database. -/
def toJson (db : DatabaseStore) : Json :=
  .ofFields [
    ("concepts", some (rowsToJson db.concepts)),
    ("phrasings", some (rowsToJson db.phrasings)),
    ("interactions", some (rowsToJson db.interactions))]

/-- The database of a document. -/
def ofJson? (j : Json) : Option DatabaseStore := do
  let r ← j.record? tableNames
  return {
    concepts := ← r.required? "concepts" rowsOfJson?
    phrasings := ← r.required? "phrasings" rowsOfJson?
    interactions := ← r.required? "interactions" rowsOfJson? }

/-- The line that a database file begins with. -/
def heading : String := "Spaced review database 1\n"

/-- The content of the file that holds a database. -/
def write (db : DatabaseStore) : String :=
  heading ++ db.toJson.write

/-- The database in the content of a file. A file without content is a database without rows. -/
def read? (content : String) : Option DatabaseStore :=
  if content = "" then some empty
  else if heading.toList.isPrefixOf content.toList then
    (Json.read? (String.ofList (content.toList.drop heading.length))).bind ofJson?
  else none

end DatabaseStore

end SpacedReview
