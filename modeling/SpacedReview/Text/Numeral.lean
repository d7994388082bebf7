/-!
# Decimal numerals

Natural numbers as runs of the digits `0`-`9`. `digits` is the shortest numeral of a number,
`padded` fills it with zeros to a least width, and `value` reads a run of digits back.
`readUnsigned?` is the reader for numbers that a person types or sets in a variable.
-/

namespace SpacedReview

namespace Numeral

/-- The greatest natural number of 64 bits. -/
def word64Limit : Nat := 0xFFFFFFFFFFFFFFFF

/-- The greatest natural number of 32 bits. -/
def word32Limit : Nat := 0xFFFFFFFF

/-- The digit characters; no other script's digits count. -/
def isDigit (c : Char) : Bool :=
  '0' ≤ c && c ≤ '9'

/-- The character of a digit below ten. -/
def digitChar (d : Nat) : Char :=
  Char.ofNat ('0'.toNat + d)

/-- The character of a hexadecimal digit below sixteen, in lower case. -/
def hexDigit (d : Nat) : Char :=
  if d < 10 then digitChar d else Char.ofNat ('a'.toNat + (d - 10))

/-- The number that a digit character stands for. -/
def digitValue (c : Char) : Nat :=
  c.toNat - '0'.toNat

/-- The digits of a number, most significant first, in front of what follows them. -/
def digitsBefore (n : Nat) (rest : List Char) : List Char :=
  if n < 10 then digitChar n :: rest
  else digitsBefore (n / 10) (digitChar (n % 10) :: rest)
termination_by n
decreasing_by omega

/-- The shortest numeral of a number: no leading zero, and `0` for zero. -/
def digits (n : Nat) : List Char :=
  digitsBefore n []

/-- The numeral of a number, with zeros in front until it has `width` digits. -/
def padded (width n : Nat) : List Char :=
  List.replicate (width - (digits n).length) '0' ++ digits n

/-- The number that a run of digits stands for. -/
def value (ds : List Char) : Nat :=
  ds.foldl (fun n d => n * 10 + digitValue d) 0

/-- The longest run of digits at the front, and the rest. -/
def span (cs : List Char) : List Char × List Char :=
  (cs.takeWhile isDigit, cs.dropWhile isDigit)

/-- The numeral of a number as a text. -/
def text (n : Nat) : String :=
  String.ofList (digits n)

/-- The numeral of an integer: a minus sign in front of a negative one. -/
def signedText (n : Int) : String :=
  if n < 0 then "-" ++ text n.natAbs else text n.natAbs

/-- Reads an unsigned numeral: an optional plus sign and at least one digit, nothing else, and
    no more than `limit`. -/
def readUnsigned? (limit : Nat) (s : String) : Option Nat :=
  let ds := match s.toList with
    | '+' :: r => r
    | r => r
  if ds ≠ [] ∧ ds.all isDigit ∧ value ds ≤ limit then some (value ds) else none

end Numeral

end SpacedReview
