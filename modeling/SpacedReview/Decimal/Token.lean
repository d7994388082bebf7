import SpacedReview.Text.Numeral

/-!
# Number tokens

A `Token` is a written number taken apart into its runs of digits, without any loss: `write` puts
the same characters together again. `read?` takes the longest token at the front of a text. A
whole part has no leading zero, and a point or an exponent mark is followed by a digit.
-/

namespace SpacedReview

namespace Decimal

/-- The exponent of a token: its sign, if one is written, and its digits. -/
structure TokenExponent where
  sign : Option Char
  digits : List Char
deriving Repr, DecidableEq

/-- A written number. An empty fraction means that there is no point. -/
structure Token where
  negative : Bool
  whole : List Char
  fraction : List Char
  exponent : Option TokenExponent
deriving Repr, DecidableEq

namespace Token

/-- The token of a natural number. -/
def ofNat (n : Nat) : Token :=
  { negative := false, whole := Numeral.digits n, fraction := [], exponent := none }

/-- The token has neither a fraction nor an exponent. -/
def isWhole (t : Token) : Bool :=
  t.fraction = [] && t.exponent = none

/-- The characters of an exponent, with a lower-case mark. -/
def writeExponent : Option TokenExponent → List Char
  | none => []
  | some e => 'e' :: (e.sign.toList ++ e.digits)

/-- The characters of a token. -/
def write (t : Token) : List Char :=
  (if t.negative then ['-'] else []) ++ t.whole ++
    (if t.fraction = [] then [] else '.' :: t.fraction) ++ writeExponent t.exponent

/-- The whole part at the front: a lone zero, or digits that do not begin with one. -/
def readWhole? (cs : List Char) : Option (List Char × List Char) :=
  match Numeral.span cs with
  | ([], _) => none
  | ('0' :: _ :: _, _) => none
  | (ds, r) => some (ds, r)

/-- The fraction at the front, if there is a point. -/
def readFraction? : List Char → Option (List Char × List Char)
  | '.' :: r =>
    match Numeral.span r with
    | ([], _) => none
    | (ds, r) => some (ds, r)
  | r => some ([], r)

/-- The digits of an exponent at the front. -/
def readExponentDigits? (sign : Option Char) (cs : List Char) :
    Option (Option TokenExponent × List Char) :=
  match Numeral.span cs with
  | ([], _) => none
  | (ds, r) => some (some ⟨sign, ds⟩, r)

/-- The exponent at the front, if there is an exponent mark. -/
def readExponent? : List Char → Option (Option TokenExponent × List Char)
  | c :: r =>
    if c = 'e' ∨ c = 'E' then
      match r with
      | '+' :: r => readExponentDigits? (some '+') r
      | '-' :: r => readExponentDigits? (some '-') r
      | r => readExponentDigits? none r
    else some (none, c :: r)
  | [] => some (none, [])

/-- The token at the front of a text, and the rest. -/
def read? (cs : List Char) : Option (Token × List Char) := do
  let (negative, r) := match cs with
    | '-' :: r => (true, r)
    | r => (false, r)
  let (whole, r) ← readWhole? r
  let (fraction, r) ← readFraction? r
  let (exponent, r) ← readExponent? r
  return ({ negative, whole, fraction, exponent }, r)

end Token

end Decimal

end SpacedReview
