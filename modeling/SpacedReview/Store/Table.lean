import SpacedReview.Json.Reader
import SpacedReview.Store.Basic
import SpacedReview.Store.Cell
import SpacedReview.Time.StampReader

/-!
# Tables

A `Schema` names a table and its columns, a row has one cell for each of them, and one of the
columns identifies the row. Cells are read by column: a cell of another type, a number out of
range or a text that is no timestamp is an error that names the place.

## Main definitions

- `Schema.text`, `Schema.real`, `Schema.word32`, `Schema.instant` and others — reading a cell
- `Schema.fit`, `Schema.overwrite` — a row as the table keeps it
- `Schema.insert`, `Schema.change` — writing rows
-/

namespace SpacedReview

/-- A column of a table. -/
structure Column where
  name : String
  type : ColumnType
  /-- The column must hold something. -/
  required : Bool
deriving Repr, DecidableEq

/-- A table's name and its columns. -/
structure Schema (n : Nat) where
  name : String
  columns : Vector Column n
  /-- The column that identifies a row. -/
  key : Fin n

/-- One cell for each column. -/
abbrev Row (n : Nat) := Vector Cell n

namespace Schema

variable {n : Nat} (s : Schema n) (r : Row n) (c : Fin n)

/-- The error of a cell that has the wrong type. -/
def wrongType : StoreError :=
  .database ("Invalid column type " ++ (r.get c).typeName ++ " at index: " ++ Numeral.text c ++
    ", name: " ++ (s.columns.get c).name)

/-- The error of a text that is not what the column is for. -/
def unreadable (what text : String) : StoreError :=
  .database ("Conversion error from type Text at index: 0, Invalid " ++ what ++ " '" ++ text ++ "'")

/-- The error of a number that does not fit. -/
def outOfRange (k : Int) : StoreError :=
  .database ("Integer " ++ Numeral.signedText k ++ " out of range at index " ++ Numeral.text c)

/-- The error of an identifier that another row has. -/
def repeated : StoreError :=
  .database ("UNIQUE constraint failed: " ++ s.name ++ "." ++ (s.columns.get s.key).name)

/-- The text in a column. -/
def text : Except StoreError String :=
  match r.get c with
  | .text t => .ok t
  | _ => .error (s.wrongType r c)

/-- The text in a column, if there is one. -/
def text? : Except StoreError (Option String) :=
  match r.get c with
  | .null => .ok none
  | _ => (s.text r c).map some

/-- The float in a column. -/
def real : Except StoreError Float :=
  match r.get c with
  | .real x => .ok x
  | .integer k => .ok (Float.ofInt k)
  | _ => .error (s.wrongType r c)

/-- The integer in a column. -/
def integer : Except StoreError Int :=
  match r.get c with
  | .integer k => .ok k
  | _ => .error (s.wrongType r c)

/-- The 32-bit natural number in a column. -/
def word32 : Except StoreError UInt32 := do
  let k ← s.integer r c
  if 0 ≤ k ∧ k ≤ Numeral.word32Limit then return UInt32.ofNat k.toNat
  else throw (outOfRange c k)

/-- The truth value in a column: every integer but zero is true. -/
def bool : Except StoreError Bool := do
  return (← s.integer r c) ≠ 0

/-- The instant of a text that was found in a column. -/
def instantOf (text : String) : Except StoreError Instant :=
  match Instant.readStrict? text with
  | some t => .ok t
  | none => .error (unreadable ((s.columns.get c).name ++ " timestamp") text)

/-- The instant in a column. -/
def instant : Except StoreError Instant := do
  s.instantOf c (← s.text r c)

/-- The instant in a column, if there is one. -/
def instant? : Except StoreError (Option Instant) := do
  match ← s.text? r c with
  | none => return none
  | some t => return some (← s.instantOf c t)

/-- The first required column of a row that holds nothing. -/
def missing? : Option (Fin n) :=
  (List.finRange n).find? fun c => (s.columns.get c).required && r.get c = .null

/-- The row, unless a required column of it holds nothing. -/
def complete : Except StoreError (Row n) :=
  match s.missing? r with
  | none => .ok r
  | some c => .error (.database
      ("NOT NULL constraint failed: " ++ s.name ++ "." ++ (s.columns.get c).name))

/-- A cell as a column keeps it. -/
def keep (v : Cell) : Cell :=
  (s.columns.get c).type.keep v

/-- A row as the table keeps it. -/
def fit : Except StoreError (Row n) :=
  s.complete (.ofFn fun c => s.keep c (r.get c))

/-- The row with some cells changed. -/
def overwrite (cells : List (Fin n × Cell)) : Except StoreError (Row n) :=
  s.complete (cells.foldl (fun r p => r.set p.1 (s.keep p.1 p.2)) r)

/-- The row has the identifier. -/
def hasId (id : String) : Bool :=
  r.get s.key = .text id

/-- The rows with one more behind them. No two rows have one identifier. -/
def insert (rows : List (Row n)) (r : Row n) : Except StoreError (List (Row n)) := do
  let r ← s.fit r
  if rows.any fun q => q.get s.key = r.get s.key ∧ r.get s.key ≠ .null then
    throw s.repeated
  return rows ++ [r]

/-- The rows with some cells changed in the one that has an identifier. -/
def change (rows : List (Row n)) (id : String) (cells : List (Fin n × Cell)) :
    Except StoreError (List (Row n)) :=
  rows.mapM fun r => if s.hasId r id then s.overwrite r cells else .ok r

end Schema

end SpacedReview
