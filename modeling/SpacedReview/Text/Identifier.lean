import SpacedReview.Text.Numeral

/-!
# Identifiers

New records are named by numbers of 128 bits that are drawn at random. An identifier is written
in hexadecimal digits, in groups of eight, four, four, four and twelve.
-/

namespace SpacedReview

namespace Identifier

/-- The last hexadecimal digits of a number, as many as wanted, in front of what follows them. -/
def hexBefore : Nat → Nat → List Char → List Char
  | 0, _, rest => rest
  | count + 1, n, rest => hexBefore count (n / 16) (Numeral.hexDigit (n % 16) :: rest)

/-- Digits in groups of the given lengths with dashes between them. -/
def grouped : List Nat → List Char → List Char
  | [], cs => cs
  | [_], cs => cs
  | n :: ns, cs => cs.take n ++ '-' :: grouped ns (cs.drop n)

/-- The identifier of a number. -/
def ofNumber (n : Nat) : String :=
  String.ofList (grouped [8, 4, 4, 4, 12] (hexBefore 32 n []))

end Identifier

end SpacedReview
