/-!
# Blank characters and trimming

`isBlank` is the `White_Space` property of the Unicode character database, and
`trim` removes blank characters from both ends of a text. `EqualFold` compares two texts
with the letters `A`-`Z` and `a`-`z` identified and every other character kept apart.
-/

namespace SpacedReview

namespace Text

/-- The code points with the `White_Space` property: the ASCII controls from tab to carriage
    return, the ASCII blank, next line, no-break space, and the spaces and separators of the
    blocks above Latin-1. -/
def isBlank (c : Char) : Bool :=
  let n := c.toNat
  (9 ≤ n && n ≤ 13) || n == 0x20 || n == 0x85 || n == 0xA0 || n == 0x1680 ||
    (0x2000 ≤ n && n ≤ 0x200A) || n == 0x2028 || n == 0x2029 || n == 0x202F ||
    n == 0x205F || n == 0x3000

/-- Everything from the first character that is not blank. -/
def trimStart (cs : List Char) : List Char :=
  cs.dropWhile isBlank

/-- Everything up to the last character that is not blank. -/
def trimEnd (cs : List Char) : List Char :=
  (cs.reverse.dropWhile isBlank).reverse

/-- The text between the first and the last character that are not blank. -/
def trim (s : String) : String :=
  String.ofList (trimEnd (trimStart s.toList))

/-- The lower-case form of an ASCII letter; every other character is its own fold. -/
def foldChar (c : Char) : Char :=
  if 'A' ≤ c ∧ c ≤ 'Z' then Char.ofNat (c.toNat + 32) else c

/-- The text with each ASCII letter in lower case. -/
def fold (s : String) : String :=
  s.map foldChar

/-- Two texts are equal up to the case of ASCII letters. -/
def EqualFold (a b : String) : Prop :=
  fold a = fold b

instance (a b : String) : Decidable (EqualFold a b) :=
  inferInstanceAs (Decidable (fold a = fold b))

end Text

end SpacedReview
