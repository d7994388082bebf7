import SpacedReview.Decimal.Reader
import SpacedReview.Text.Numeral

/-!
# Cells of a table

A cell holds nothing, a 64-bit signed integer, a float or a text. A column has a type, and
`ColumnType.keep` says how a cell looks once a column of the type holds it: numbers become texts
in a text column, texts that are numerals become numbers in a number column, and what is not a
number is not kept at all.
-/

namespace SpacedReview

/-- What a column of a row holds. -/
inductive Cell where
  | null
  | integer (n : Int)
  | real (x : Float)
  | text (s : String)
deriving Repr, DecidableEq, Inhabited

namespace Cell

/-- The name of the cell's type. -/
def typeName : Cell → String
  | null => "Null"
  | integer _ => "Integer"
  | real _ => "Real"
  | text _ => "Text"

/-- The text of a text cell. -/
def text? : Cell → Option String
  | text s => some s
  | _ => none

/-- The least and the greatest integer that a cell can hold. -/
def integerRange : Int × Int :=
  (-0x8000000000000000, 0x7FFFFFFFFFFFFFFF)

/-- An integer or nothing, if it is in range. -/
def integer? (n : Int) : Option Cell :=
  if integerRange.1 ≤ n ∧ n ≤ integerRange.2 then some (integer n) else none

/-- A character that may surround a numeral in a text. -/
def isSpace (c : Char) : Bool :=
  c == ' ' || (9 ≤ c.toNat && c.toNat ≤ 13)

/-- A character that can occur in a numeral. -/
def isNumeric (c : Char) : Bool :=
  Numeral.isDigit c || c ∈ ['+', '-', '.', 'e', 'E']

/-- The numeral in a text: an integer if it is a whole one in range, otherwise a float. -/
def number? (s : String) : Option Cell :=
  let cs := ((s.toList.dropWhile isSpace).reverse.dropWhile isSpace).reverse
  let (negative, ds) := match cs with
    | '-' :: r => (true, r)
    | '+' :: r => (false, r)
    | r => (false, r)
  let n : Int := if negative then -(Numeral.value ds : Int) else Numeral.value ds
  let whole := if ds ≠ [] ∧ ds.all Numeral.isDigit then integer? n else none
  whole.or (if cs.all isNumeric then (Decimal.readFloat? (String.ofList cs)).map real else none)

/-- The integer that a float is, if it is one and in range. -/
def wholeNumber? (x : Float) : Option Int :=
  let n := x.toInt64.toInt
  if Float.ofInt n == x ∧ integerRange.1 < n ∧ n < integerRange.2 then some n else none

end Cell

/-- What a column is made for. -/
inductive ColumnType where
  | text
  | integer
  | real
deriving Repr, DecidableEq

namespace ColumnType

/-- A float in a float column. Both zeros are one, and there is no cell for what is not a
    number. -/
def keepReal (x : Float) : Cell :=
  if x.isNaN then .null else .real (if x == 0.0 then 0.0 else x)

/-- A cell as a column of the type holds it. -/
def keep : ColumnType → Cell → Cell
  | text, .integer n => .text (Numeral.signedText n)
  | integer, .text s =>
    match Cell.number? s with
    | some (.real x) => ((Cell.wholeNumber? x).map Cell.integer).getD (.real x)
    | some c => c
    | none => .text s
  | real, .text s =>
    match Cell.number? s with
    | some (.real x) => keepReal x
    | some (.integer n) => keepReal (Float.ofInt n)
    | _ => .text s
  | real, .integer n => keepReal (Float.ofInt n)
  | real, .real x => keepReal x
  | _, c => c

end ColumnType

end SpacedReview
