import SpacedReview.Json.Basic

/-!
# Writing documents

`Json.write` is the compact form of a document: no blanks, names and strings in quotes. Within a
string only the quote, the backslash and the controls below the blank are escaped, the common
controls by a letter and the others by their code in four hexadecimal digits.
-/

namespace SpacedReview

namespace Json

/-- A character inside a string literal. -/
def escape (c : Char) : List Char :=
  if c = '"' then ['\\', '"']
  else if c = '\\' then ['\\', '\\']
  else if 0x20 ≤ c.toNat then [c]
  else if c.toNat = 8 then ['\\', 'b']
  else if c.toNat = 9 then ['\\', 't']
  else if c.toNat = 10 then ['\\', 'n']
  else if c.toNat = 12 then ['\\', 'f']
  else if c.toNat = 13 then ['\\', 'r']
  else ['\\', 'u', '0', '0', Numeral.hexDigit (c.toNat / 16),
    Numeral.hexDigit (c.toNat % 16)]

/-- A string literal. One without a text is written empty. -/
def writeLiteral (s : Literal) : List Char :=
  '"' :: ((s.getD "").toList.flatMap escape ++ ['"'])

mutual

/-- The characters of a document. -/
def writeChars : Json → List Char
  | .null => ['n', 'u', 'l', 'l']
  | .bool true => ['t', 'r', 'u', 'e']
  | .bool false => ['f', 'a', 'l', 's', 'e']
  | .number t => t.write
  | .string s => writeLiteral s
  | .array items => '[' :: (writeItems items ++ [']'])
  | .object fields => '\x7b' :: (writeFields fields ++ ['\x7d'])

/-- Items with commas between them. -/
def writeItems : List Json → List Char
  | [] => []
  | [j] => writeChars j
  | j :: js => writeChars j ++ ',' :: writeItems js

/-- Fields with commas between them. -/
def writeFields : List (Literal × Json) → List Char
  | [] => []
  | [(s, j)] => writeLiteral s ++ ':' :: writeChars j
  | (s, j) :: fs => writeLiteral s ++ ':' :: (writeChars j ++ ',' :: writeFields fs)

end

/-- The compact text of a document. -/
def write (j : Json) : String :=
  String.ofList j.writeChars

end Json

end SpacedReview
